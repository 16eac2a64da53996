import ModuleLinker.Proofs.Erase.Segments

/-!
# Members of classes

The members of a class body: fields, methods with a body, methods without one, and index signatures,
with modifiers in front of them. A member is cut into the parts that are overwritten and those that stay
(`Member.plan`): one that only states a type goes as a whole, and code that assigns the properties of a
constructor is written behind the brace that opens its body. The search goes through a member and leaves
these edits, one lemma for each kind of member.
-/

set_option autoImplicit false

namespace ModuleLinker

open Erase ModuleLinker.Symbol

/-! ## Members -/

/-- What a field or a method starts with. -/
structure MemberHead where
  /-- The modifiers. -/
  modifiers : List String
  /-- The name. -/
  name : Symbol
  /-- The marker behind the name. -/
  marker : Option String
  deriving DecidableEq

/-- A member of a class. -/
inductive Member where
  /-- The field `name: T = value;`. -/
  | field (head : MemberHead) (type : Option (List Symbol)) (value : Option Symbol)
  /-- The method `name<X>(a: A): T { }`. -/
  | method (head : MemberHead) (types : List TypeParameter) (signature : Signature)
  /-- The method `name<X>(a: A): T;`, which has no body. -/
  | overload (head : MemberHead) (types : List TypeParameter) (signature : Signature)
  /-- The index signature `[key: K]: T;`. -/
  | index (modifiers : List String) (key : String) (keyType type : List Symbol)
  deriving DecidableEq

/-- Whether a symbol can be the name of a member. -/
def isMemberName (s : Symbol) : Bool :=
  s.kind == .ident || s.kind == .string || s.kind == .number || s.kind == .privateName

/-- The modifiers of a member that only states a type. -/
def ambientModifiers : List String := ["abstract", "declare"]

/-- The parts of the modifiers of a member: those that mean nothing at run time are overwritten. -/
def modifierParts (modifiers : List String) : List Part :=
  modifiers.map fun m => ⟨Program.parameterModifiers.contains m, [word m]⟩

namespace MemberHead

/-- The parts of the start of a member. -/
def parts (head : MemberHead) : List Part :=
  modifierParts head.modifiers ++ [⟨false, [head.name]⟩, ⟨true, markerSymbols head.marker⟩]

/-- Whether a member only states a type, to judge from its modifiers. -/
def isAmbient (head : MemberHead) : Bool := head.modifiers.any ambientModifiers.contains

/-- Whether the start of a member is written as it should be. -/
structure IsProper (head : MemberHead) : Prop where
  /-- The modifiers are those of members. -/
  modifiers : ∀ m ∈ head.modifiers, m ∈ Program.memberModifiers
  /-- The name is one. -/
  name : isMemberName head.name = true
  /-- The marker is one of fields or methods. -/
  marker : ∀ text ∈ head.marker, text = "?" ∨ text = "!"

end MemberHead

/-- The parts of a method up to the symbol behind its result type. -/
def methodParts (head : MemberHead) (types : List TypeParameter) (g : Signature) (last : Symbol) :
    List Part :=
  head.parts ++ ⟨true, typeParameterSymbols types⟩ :: ⟨false, [mark "("]⟩ ::
    (g.parts ++ [⟨false, [last]⟩])

/-- The symbols of an index signature behind its modifiers. -/
def indexSymbols (key : String) (keyType type : List Symbol) : List Symbol :=
  mark "[" :: (word key :: mark ":" :: keyType ++ mark "]" :: mark ":" :: (type ++ [mark ";"]))

/-- The code that assigns properties. -/
def assignmentCode (properties : List String) : String :=
  String.join (properties.map fun x => " this." ++ x ++ " = " ++ x ++ ";")

namespace Member

/-- The parts of a member up to the semicolon behind it or to the brace that opens its body, if none of
it went as a whole. -/
def innerParts : Member → List Part
  | field head type value =>
    head.parts ++ [⟨true, annotationSymbols type⟩, ⟨false, valueSymbols value⟩, ⟨false, [mark ";"]⟩]
  | method head types g => methodParts head types g (mark openBrace)
  | overload head types g => methodParts head types g (mark ";")
  | index modifiers key keyType type =>
    modifierParts modifiers ++ [⟨false, indexSymbols key keyType type⟩]

/-- Whether a member only states a type, so that it goes as a whole. -/
def isWhole : Member → Bool
  | field head .. => head.isAmbient
  | method .. => false
  | overload .. | index .. => true

/-- What becomes of a member. -/
def plan (member : Member) : Plan :=
  if member.isWhole then ⟨[⟨true, allSymbols member.innerParts⟩], "", []⟩
  else match member with
    | method _ _ g => ⟨member.innerParts, assignmentCode (propertiesOf g.entries), [mark closeBrace]⟩
    | _ => ⟨member.innerParts, "", []⟩

theorem plan_of_isWhole {member : Member} (whole : member.isWhole = true) :
    member.plan = ⟨[⟨true, allSymbols member.innerParts⟩], "", []⟩ := if_pos whole

/-- The parts of a plan have the symbols of the member up to its semicolon or body. -/
theorem allSymbols_plan (member : Member) :
    allSymbols member.plan.parts = allSymbols member.innerParts := by
  unfold plan
  split
  · simp
  · split <;> rfl

/-- Whether a member is written as it should be. -/
def IsProper : Member → Prop
  | field head type value =>
    head.IsProper ∧ (∀ ss ∈ type, IsPlainType ss) ∧ ∀ s ∈ value, isLiteral s = true
  | method head types g => head.IsProper ∧ (∀ t ∈ types, t.IsProper) ∧ g.IsProper ∧
    head.isAmbient = false ∧ (propertiesOf g.entries ≠ [] → head.name = word "constructor")
  | overload head types g => head.IsProper ∧ (∀ t ∈ types, t.IsProper) ∧ g.IsProper
  | index modifiers _ keyType type =>
    (∀ m ∈ modifiers, m ∈ Program.memberModifiers) ∧ IsPlainType keyType ∧ IsPlainType type

end Member

theorem Member.innerParts_ne_nil (member : Member) : allSymbols member.innerParts ≠ [] := by
  cases member <;> simp [innerParts, methodParts, MemberHead.parts, indexSymbols]

/-- Code is only written in the body of a member. -/
theorem Member.sound (member : Member) : member.plan.IsSound := by
  intro code
  refine ⟨member.allSymbols_plan ▸ member.innerParts_ne_nil, ?_⟩
  unfold plan at code ⊢
  split at code
  · exact absurd rfl code
  · split at code
    · simp [isWhole]
    · exact absurd rfl code

/-! ## Brackets -/

theorem allSymbols_modifierParts (modifiers : List String) :
    allSymbols (modifierParts modifiers) = modifiers.map word := by
  rw [allSymbols, modifierParts, List.flatMap_map]
  exact (List.map_eq_flatMap ..).symm

theorem isPlain_of_isMemberName {s : Symbol} (name : isMemberName s = true) : s.isPlain = true := by
  obtain ⟨kind, text⟩ := s
  cases kind <;> first | rfl | cases name

theorem MemberHead.IsProper.nested {head : MemberHead} (proper : head.IsProper) :
    Nested (allSymbols head.parts) := by
  have marker : Nested (markerSymbols head.marker) := nested_markerSymbols _ fun text mem => by
    rcases proper.marker text mem with rfl | rfl <;> rfl
  rw [MemberHead.parts, allSymbols_append, allSymbols_modifierParts]
  exact (nested_words head.modifiers).append
    (.cons (isPlain_of_isMemberName proper.name) (marker.append .nil))

/-- The brackets of a method have partners if those behind it do. -/
theorem nested_methodParts {head : MemberHead} (proper : head.IsProper) {types : List TypeParameter}
    (typesProper : ∀ t ∈ types, t.IsProper) {g : Signature} (gProper : g.IsProper) {last : Symbol}
    {rest : List Symbol} (nested : Nested (last :: rest)) :
    Nested (allSymbols (methodParts head types g last) ++ rest) := by
  have whole := proper.nested.append ((nested_typeParameterSymbols typesProper).append
    (gProper.nested.append nested))
  simpa [methodParts] using whole

/-- The brackets of a member have partners. -/
theorem Member.IsProper.nested {member : Member} (proper : member.IsProper) :
    Nested member.plan.symbols := by
  rw [Plan.symbols, member.allSymbols_plan]
  cases member with
  | field head type value =>
    obtain ⟨headProper, plain, literal⟩ := proper
    have none : (Member.field head type value).plan.last = [] := by
      unfold Member.plan
      split <;> rfl
    have semicolon : Nested [mark ";"] := .plain rfl
    rw [none, Member.innerParts, allSymbols_append]
    exact (headProper.nested.append ((nested_annotationSymbols plain).append
      ((nested_valueSymbols literal).append (semicolon.append .nil)))).append .nil
  | method head types g =>
    obtain ⟨headProper, typesProper, gProper, -⟩ := proper
    exact nested_methodParts headProper typesProper gProper (@Nested.bracket openBrace [] (by decide) .nil)
  | overload head types g =>
    obtain ⟨headProper, typesProper, gProper⟩ := proper
    exact nested_methodParts headProper typesProper gProper (.plain rfl)
  | index modifiers key keyType type =>
    obtain ⟨-, plainKey, plain⟩ := proper
    have inside : Nested (word key :: mark ":" :: keyType) :=
      .cons rfl (.cons rfl plainKey.isType.nested)
    have semicolon : Nested [mark ";"] := .plain rfl
    have whole := (nested_words modifiers).append ((@Nested.bracket "[" _ (by decide) inside).append
      (.cons (s := mark ":") rfl (plain.isType.nested.append semicolon)))
    simpa [Member.innerParts, Member.plan, Member.isWhole, allSymbols_modifierParts, indexSymbols, closerOf]
      using whole

namespace Erase.Program

variable {p : Program} {hole : Hole → Except Failure Edits}

/-! ## Modifiers -/

/-- Whether a symbol can have a modifier in front of it. -/
def isModified (s : Symbol) : Bool := isMemberName s || s == mark "["

/-- A modifier stands in front of a name or a bracket on its line. -/
theorem modifiesMember_of_shows {i : Nat} {m : String} {s : Symbol} (known : m ∈ memberModifiers)
    (has : p.Has i (word m)) (shows : p.Shows (i + 1) s) (modified : isModified s = true) :
    p.modifiesMember i = true := by
  obtain ⟨⟨kind, start, text, newline, holes⟩, found, same, line⟩ := shows
  have among : p.isOneOf i memberModifiers = true := by
    rw [has.isOneOf_eq]
    simpa using known
  cases same
  have behind : p.newlineBefore (i + 1) = false := by
    rw [newlineBefore, found]
    exact line
  rw [modifiesMember, among, behind, is, found]
  simp only [isModified, isMemberName, Token.symbol, Bool.or_eq_true, beq_iff_eq] at modified
  rcases modified with (((rfl | rfl) | rfl) | rfl) | bracket
  · rfl
  · rfl
  · rfl
  · rfl
  · cases bracket
    rfl

/-- The modifiers in front of a member are passed, and those that mean nothing at run time are
overwritten. -/
theorem blankMemberModifiers_words {modifiers : List String} (known : ∀ m ∈ modifiers, m ∈ memberModifiers)
    {s : Symbol} {ss : List Symbol} (modified : isModified s = true) {i j : Nat}
    (line : p.Line i (modifiers.map word ++ s :: ss)) (place : i + modifiers.length = j)
    (stops : p.modifiesMember j = false) (found : MemberModifiers) (edits : Edits) :
    p.blankMemberModifiers found ⟨i, edits⟩ = (⟨j, p.erased i (modifierParts modifiers) edits⟩,
      ⟨found.ambient || modifiers.any ambientModifiers.contains,
        found.isStatic || modifiers.contains "static"⟩) := by
  induction modifiers generalizing i found edits with
  | nil =>
    obtain rfl : i = j := place
    rw [blankMemberModifiers, dif_neg (by rw [stops]; exact Bool.false_ne_true)]
    simp [modifierParts, erased_nil]
  | cons m ms ih =>
    rw [List.forall_mem_cons] at known
    obtain ⟨has, rest⟩ := line
    have isModifier : p.modifiesMember i = true := by
      cases ms with
      | nil => exact modifiesMember_of_shows known.1 has rest.1 modified
      | cons m' ms => exact modifiesMember_of_shows known.1 has rest.1 rfl
    have place : i + 1 + ms.length = j := by
      rw [← place, List.length_cons]
      omega
    have edits_eq : ((if parameterModifiers.contains m then p.blank ⟨i, edits⟩ i (i + 1)
        else ⟨i, edits⟩).goto (i + 1)) =
          ⟨i + 1, p.erased i [⟨parameterModifiers.contains m, [word m]⟩] edits⟩ := by
      cases parameterModifiers.contains m <;> rfl
    rw [blankMemberModifiers, dif_pos isModifier]
    dsimp only
    rw [has.text_eq, text_word, edits_eq, ih known.2 rest.line place]
    have modifierParts_cons : modifierParts (m :: ms) =
        ⟨parameterModifiers.contains m, [word m]⟩ :: modifierParts ms := rfl
    rw [modifierParts_cons, erased_cons i ⟨parameterModifiers.contains m, [word m]⟩ (modifierParts ms)]
    have ambient : (found.ambient || m == "abstract" || m == "declare" || ms.any ambientModifiers.contains) =
        (found.ambient || (m :: ms).any ambientModifiers.contains) := by
      have own : ambientModifiers.contains m = (m == "abstract" || m == "declare") := by
        rw [ambientModifiers, List.contains_cons, List.contains_cons, List.contains_nil, Bool.or_false]
      rw [List.any_cons, own, Bool.or_assoc, Bool.or_assoc, Bool.or_assoc]
    have isStatic : (found.isStatic || m == "static" || ms.contains "static") =
        (found.isStatic || (m :: ms).contains "static") := by
      rw [List.contains_cons, Bool.or_assoc, BEq.comm]
    rw [ambient, isStatic]
    rfl

/-! ## The start of a member -/

section Names

variable {i : Nat} {s : Symbol} (name : isMemberName s = true) (has : p.Has i s)
include name has

/-- The name of a member is stepped over. -/
theorem walkMemberName_name (w : Walker) (edits : Edits) :
    p.walkMemberName w ⟨i, edits⟩ = .ok ⟨i + 1, edits⟩ := by
  obtain ⟨kind, text⟩ := s
  unfold walkMemberName
  dsimp only
  rw [has.kind?_eq]
  cases kind <;> first | rfl | cases name

/-- A name is no punctuator. -/
theorem isPunct_of_isMemberName (text : String) : p.isPunct i text = false := by
  obtain ⟨kind, text'⟩ := s
  rw [has.isPunct_eq]
  cases kind <;> first | rfl | cases name

omit name has in
/-- A name is no modifier where neither another name nor a bracket stands behind it. -/
theorem modifiesMember_of_marked {texts : List String} (next : p.Marked (i + 1) texts)
    (other : ∀ text ∈ texts, text ∉ ["[", "*", openBrace]) : p.modifiesMember i = false := by
  obtain ⟨text, among, has'⟩ := next
  have other := other text among
  simp only [List.mem_cons, List.not_mem_nil, or_false, not_or] at other
  refine Bool.and_eq_false_iff.mpr (.inr ((has'.is_eq fun _ => rfl).trans ?_))
  simp [token, mark, other]

end Names

/-- The marker behind a name is overwritten. -/
theorem blankMarker_either {marker : Option String} (known : ∀ text ∈ marker, text = "?" ∨ text = "!")
    {i j : Nat} {texts : List String} (has : p.HasAll i (markerSymbols marker))
    (place : i + (markerSymbols marker).length = j) (next : p.Marked j texts)
    (other : "?" ∉ texts ∧ "!" ∉ texts) (edits : Edits) :
    (if p.isPunct i "?" then p.blankMarker ⟨i, edits⟩ "?" else p.blankMarker ⟨i, edits⟩ "!") =
      ⟨j, p.erased i [⟨true, markerSymbols marker⟩] edits⟩ := by
  cases marker with
  | none =>
    obtain rfl : i = j := place
    rw [next.isPunct_eq other.1]
    exact blankMarker_eq (by simp) has rfl next other.2 edits
  | some text =>
    have isPunct : p.isPunct i "?" = (text == "?") := has.1.isPunct_eq "?"
    rw [isPunct]
    obtain rfl | rfl := known text rfl
    · exact blankMarker_eq (by simp) has place next other.1 edits
    · exact blankMarker_eq (by simp) has place next other.2 edits

/-- A member goes on behind its modifiers as an index signature or as what has a name. -/
theorem classMember_modified {modifiers : List String} (known : ∀ m ∈ modifiers, m ∈ memberModifiers)
    {s : Symbol} {ss : List Symbol} (modified : isModified s = true) {i j : Nat}
    (line : p.Line i (modifiers.map word ++ s :: ss)) (place : i + modifiers.length = j)
    (stops : p.modifiesMember j = false) (w : Walker) (derived : Bool) (close : Nat) (edits : Edits) :
    p.classMember w derived close ⟨i, edits⟩ =
      if p.isPunct j "[" && p.isName (j + 1) && p.isPunct (j + 2) ":" then
        p.indexSignature i ⟨j, p.erased i (modifierParts modifiers) edits⟩
      else (do
        let named ← p.walkMemberName w ⟨j, p.erased i (modifierParts modifiers) edits⟩
        let marked :=
          if p.isPunct named.pos "?" then p.blankMarker named "?" else p.blankMarker named "!"
        let generic ← p.blankTypeParameters marked
        let ambient := modifiers.any ambientModifiers.contains
        if p.isPunct generic.pos "(" then p.method w derived ambient i j generic
        else p.classField w close ambient i generic) := by
  have isPunct_eq {k : Nat} (has : p.Has k s) {text : String} (other : text ≠ "[") :
      p.isPunct k text = false := by
    obtain ⟨kind, text'⟩ := s
    rw [has.isPunct_eq]
    cases kind <;> simp_all [isModified, isMemberName, Symbol.mark, token, Token.isPunct]
    exact fun same => other same.symm
  have first {text : String} (other : text ≠ "[") : p.isPunct i text = false := by
    cases modifiers with
    | nil => exact isPunct_eq line.1 other
    | cons m ms => exact line.1.isPunct_eq text
  have has : p.Has j s := by
    have all := (hasAll_append.mp line.hasAll).2
    rw [List.length_map, place] at all
    exact all.1
  have undecorated : p.walkDecorators w ⟨i, edits⟩ = .ok ⟨i, edits⟩ := by
    rw [walkDecorators, dif_neg]
    rw [first (by decide)]
    exact Bool.false_ne_true
  have passed := blankMemberModifiers_words known modified line place stops ⟨false, false⟩ edits
  unfold classMember
  dsimp only
  rw [first (by decide), undecorated]
  dsimp only [bind, Except.bind]
  have noStar (edits : Edits) : p.skipPunct ⟨j, edits⟩ "*" = ⟨j, edits⟩ := by
    simp [skipPunct, isPunct_eq has]
  rw [passed]
  dsimp only
  rw [isPunct_eq has (by decide), Bool.and_false, Bool.false_or, noStar]
  rfl

/-- A member with a name goes on behind its name and marker as a method or as a field. -/
theorem classMember_named {head : MemberHead} (proper : head.IsProper) {i j : Nat}
    {rest : List Symbol} (line : p.Line i (allSymbols head.parts ++ rest))
    (place : i + (allSymbols head.parts).length = j) (next : p.Marked j ["<", "(", ":", "=", ";"])
    (w : Walker) (derived : Bool) (close : Nat) (edits : Edits) :
    p.classMember w derived close ⟨i, edits⟩ =
      (p.blankTypeParameters ⟨j, p.erased i head.parts edits⟩ >>= fun generic =>
        if p.isPunct generic.pos "(" then
          p.method w derived head.isAmbient i (i + head.modifiers.length) generic
        else p.classField w close head.isAmbient i generic) := by
  obtain ⟨modifiers, name, marker⟩ := head
  obtain ⟨known, isName, marked⟩ := proper
  dsimp only at known isName marked
  simp only [MemberHead.parts, allSymbols_append, allSymbols_modifierParts, allSymbols_cons,
    allSymbols_nil, List.append_nil, List.length_append, List.length_map, List.length_cons,
    List.append_assoc, List.singleton_append] at line place
  have all := (hasAll_append.mp line.hasAll).2
  rw [List.length_map] at all
  obtain ⟨atName, all⟩ := all
  have has := (hasAll_append.mp all).1
  have place' : i + modifiers.length + 1 + (markerSymbols marker).length = j := by omega
  have behind : p.Marked (i + modifiers.length + 1) ["?", "!", "<", "(", ":", "=", ";"] := by
    cases marker with
    | none =>
      obtain rfl : i + modifiers.length + 1 = j := place'
      exact next.mono (by simp)
    | some text => exact ⟨text, by rcases marked text rfl with rfl | rfl <;> simp, has.1⟩
  have stops : p.modifiesMember (i + modifiers.length) = false :=
    modifiesMember_of_marked behind (by decide)
  have modified : isModified name = true := by rw [isModified, isName, Bool.true_or]
  rw [classMember_modified known modified line rfl stops, isPunct_of_isMemberName isName atName,
    walkMemberName_name isName atName]
  have marker_eq := blankMarker_either marked has place' next (by decide)
    (p.erased i (modifierParts modifiers) edits)
  have edits_eq : p.erased i (MemberHead.parts ⟨modifiers, name, marker⟩) edits =
      p.erased (i + modifiers.length + 1) [⟨true, markerSymbols marker⟩]
        (p.erased i (modifierParts modifiers) edits) := by
    rw [MemberHead.parts, erased_append, allSymbols_modifierParts, List.length_map, erased_cons_cons,
      erased_keep]
    rfl
  rw [edits_eq, ← marker_eq]
  rfl

/-! ## Fields -/

/-- The value of a field is walked through up to the semicolon behind it. -/
theorem walk_fieldValue {value : Option Symbol} (literal : ∀ s ∈ value, isLiteral s = true)
    {i₀ i j close : Nat} (before : i₀ ≤ i) (has : p.HasAll i (valueSymbols value))
    (place : i + (valueSymbols value).length = j) (semicolon : p.Has j (mark ";")) (le : j ≤ close)
    (edits : Edits) :
    (if p.isPunct i "=" then
      (p.walkerAt hole i₀).walk close (p.endsField (i + 1)) (State.skip ⟨i, edits⟩ 1)
    else .ok ⟨i, edits⟩) = Except.ok ⟨j, edits⟩ := by
  cases value with
  | none =>
    obtain rfl : i = j := place
    rw [semicolon.isPunct_eq]
    rfl
  | some s =>
    obtain ⟨equals, own, -⟩ := has
    obtain rfl : i + 2 = j := place
    have goes : p.endsField (i + 1) (i + 1) = false := by
      simp [endsField, isPunct_of_isLiteral own (literal s rfl)]
    have stops : p.endsField (i + 1) (i + 2) = true := by simp [endsField, semicolon.isPunct_eq]
    have walked : p.walk hole close (p.endsField (i + 1)) (State.past ⟨i + 1, edits⟩ i₀) =
        .ok ⟨i + 2, edits⟩ := by
      rw [past_eq_self (Nat.lt_succ_of_le before)]
      exact walk_literal own (literal s rfl) (by omega) goes (.inl stops) edits
    rw [equals.isPunct_eq]
    exact walked

/-- The annotation of a field is overwritten, and a field that only states a type as a whole. -/
theorem classField_eq (matched : matchBrackets p.tokens = .ok p.partners) {type : Option (List Symbol)}
    (plain : ∀ ss ∈ type, IsPlainType ss) {value : Option Symbol}
    (literal : ∀ s ∈ value, isLiteral s = true) {i₀ i j close : Nat} (before : i₀ ≤ i)
    (reads : p.Reads i (annotationSymbols type ++ (valueSymbols value ++ [mark ";"])))
    (place : i + (annotationSymbols type ++ (valueSymbols value ++ [mark ";"])).length = j)
    (le : j ≤ close) (ambient : Bool) (start : Nat) (edits : Edits) :
    let ended : State := ⟨j, p.erased i [⟨true, annotationSymbols type⟩] edits⟩
    p.Marked i [":", "=", ";"] ∧ p.classField (p.walkerAt hole i₀) close ambient start ⟨i, edits⟩ =
      .ok (if ambient then p.blank ended start j else ended) := by
  dsimp only
  obtain ⟨ annotation, reads⟩ := reads_append.mp reads
  obtain ⟨own, semicolon, -⟩ := reads_append.mp reads
  rw [List.length_append, List.length_append, List.length_singleton] at place
  have next : p.Marked (i + (annotationSymbols type).length) ["=", ";"] :=
    Marked.before ⟨";", by simp, semicolon.has⟩ own.hasAll rfl (by cases value <;> simp [valueSymbols])
  have typed := blankAnnotation_eq matched plain annotation rfl next (by decide) edits
  have valued := @walk_fieldValue p hole value literal i₀ _ _ close (by omega) own.hasAll rfl
    semicolon.has (by omega) (p.erased i [⟨true, annotationSymbols type⟩] edits)
  obtain rfl : i + (annotationSymbols type).length + (valueSymbols value).length + 1 = j := by omega
  have ended (edits : Edits) :
      p.skipPunct ⟨i + (annotationSymbols type).length + (valueSymbols value).length, edits⟩ ";" =
        ⟨i + (annotationSymbols type).length + (valueSymbols value).length + 1, edits⟩ :=
    if_pos (semicolon.isPunct_eq ";")
  refine ⟨next.before annotation.hasAll rfl (by cases type <;> simp [annotationSymbols]),
    bind_eq_ok.mpr ⟨_, typed, ?_⟩⟩
  dsimp only
  by_cases equals : p.isPunct (i + (annotationSymbols type).length) "=" = true
  · rw [if_pos equals] at valued ⊢
    exact bind_eq_ok.mpr ⟨_, valued, by rw [ended]⟩
  · rw [if_neg equals] at valued ⊢
    exact bind_eq_ok.mpr ⟨_, valued, by rw [ended]⟩

/-! ## Methods -/

theorem assignments_eq (x : String) (xs : List String) :
    assignments (x :: xs) = assignmentCode (x :: xs) := by
  have spaced (x : String) : " this." ++ x ++ " = " ++ x ++ ";" =
      " " ++ ("this." ++ x ++ " = " ++ x ++ ";") := by
    rw [show " this." = " " ++ "this." from rfl]
    simp only [String.append_assoc]
  rw [assignments, assignmentCode]
  induction xs generalizing x with
  | nil => simp [spaced]
  | cons y ys ih =>
    rw [List.map_cons (l := y :: ys), List.map_cons (l := y :: ys), String.join_cons, spaced, ← ih y]
    simp only [List.map_cons, String.intercalate_cons_cons, String.append_assoc]

/-- The assignments of properties are what is written at the start of a body. -/
theorem insertion_assignments {properties : List String} (some : properties ≠ []) (pos : Nat) :
    insertion pos (assignmentCode properties) = [⟨pos, pos, .some (assignments properties)⟩] := by
  cases properties with
  | nil => exact absurd rfl some
  | cons x xs =>
    rw [assignments_eq, insertion, if_neg]
    simp [assignmentCode]

/-- An empty body is walked through. -/
theorem walkBracket_empty (matched : matchBrackets p.tokens = .ok p.partners) {i₀ i : Nat}
    (before : i₀ ≤ i) (opens : p.Has i (mark openBrace)) (closes : p.Has (i + 1) (mark closeBrace))
    (edits : Edits) : p.walkBracket (p.walkerAt hole i₀) ⟨i, edits⟩ = .ok ⟨i + 2, edits⟩ := by
  have close : p.close i = i + 1 :=
    @HasAll.close_eq p i openBrace [] matched (by decide) .nil ⟨opens, closes, trivial⟩
  have walked := @walkBracket_of_walk p hole i₀ i edits edits before (by rw [close]; exact walk_of_limit edits)
  rwa [close] at walked

section Methods

variable (matched : matchBrackets p.tokens = .ok p.partners) {g : Signature} (proper : g.IsProper)
  {i₀ i j : Nat} (before : i₀ ≤ i) (opens : p.Shows i (mark "("))
  (reads : p.Reads (i + 1) (allSymbols g.parts)) (place : i + 1 + (allSymbols g.parts).length = j)
include matched proper before opens reads place

/-- The signature of a method is gone through, and its properties are assigned at the start of its
body. -/
theorem method_body (brace : p.Has j (mark openBrace)) (closes : p.Has (j + 1) (mark closeBrace))
    {name : Nat} (constructs : propertiesOf g.entries ≠ [] → p.isWord name "constructor" = true)
    (start : Nat) (edits : Edits) :
    p.method (p.walkerAt hole i₀) false false start name ⟨i, edits⟩ = .ok ⟨j + 2,
      insertion (p.stop j) (assignmentCode (propertiesOf g.entries)) ++
        p.erased (i + 1) g.parts edits⟩ := by
  obtain ⟨s, done, typed⟩ := @parameters_typed p hole matched g proper i₀ i j [openBrace] before opens reads
    place ⟨_, by simp, brace⟩ (by decide) edits
  have isBrace : p.isPunct j openBrace = true := brace.isPunct_eq openBrace
  refine bind_eq_ok.mpr ⟨_, done, bind_eq_ok.mpr ⟨_, typed, ?_⟩⟩
  dsimp only
  rw [isBrace, Bool.not_false, Bool.and_true, if_pos rfl]
  have walked (edits : Edits) := @walkBracket_empty p hole matched i₀ j (by omega) brace closes edits
  by_cases none : propertiesOf g.entries = []
  · rw [none]
    exact walked _
  · have some : (propertiesOf g.entries).isEmpty = false := by simpa using none
    have stop_eq : p.stop j = p.offset j + 1 := by
      obtain ⟨t, found, same⟩ := brace
      have isPunct : t.isPunct openBrace = true := by
        have isBrace := isBrace
        rw [isPunct, is, found] at isBrace
        exact isBrace
      rw [Program.stop, found, ← stop_of_brace found isPunct]
      rfl
    rw [some, constructs none, insertion_assignments none, stop_eq]
    exact walked _

/-- A method without a body is overwritten as a whole. -/
theorem method_overload (semicolon : p.Has j (mark ";")) (ambient : Bool) (start name : Nat)
    (edits : Edits) : p.method (p.walkerAt hole i₀) false ambient start name ⟨i, edits⟩ =
      .ok (p.blank ⟨j + 1, p.erased (i + 1) g.parts edits⟩ start (j + 1)) := by
  obtain ⟨s, done, typed⟩ := @parameters_typed p hole matched g proper i₀ i j [";"] before opens reads
    place ⟨_, by simp, semicolon⟩ (by decide) edits
  have noBrace : p.isPunct j openBrace = false := semicolon.isPunct_eq openBrace
  have ended : p.skipPunct ⟨j, p.erased (i + 1) g.parts edits⟩ ";" =
      ⟨j + 1, p.erased (i + 1) g.parts edits⟩ := if_pos (semicolon.isPunct_eq ";")
  refine bind_eq_ok.mpr ⟨_, done, bind_eq_ok.mpr ⟨_, typed, ?_⟩⟩
  dsimp only
  rw [noBrace, ended]
  rfl

end Methods

/-! ## Index signatures -/

/-- An index signature is overwritten up to the semicolon behind it. -/
theorem indexSignature_eq (matched : matchBrackets p.tokens = .ok p.partners) {key : String}
    {keyType type : List Symbol} (plainKey : IsPlainType keyType) (plain : IsPlainType type) {i j : Nat}
    (line : p.Line i (indexSymbols key keyType type))
    (place : i + (indexSymbols key keyType type).length = j) (start : Nat) (edits : Edits) :
    p.indexSignature start ⟨i, edits⟩ = .ok (p.blank ⟨j, edits⟩ start j) := by
  obtain ⟨opens, reads⟩ := line
  obtain ⟨inside, closer, colon, reads⟩ := reads_append.mp reads
  obtain ⟨type', semicolon, -⟩ := reads_append.mp reads
  have nested : Nested (word key :: mark ":" :: keyType) :=
    .cons rfl (.cons rfl plainKey.isType.nested)
  have close := @HasAll.close_eq p i "[" _ matched (by decide) nested
    ⟨opens, hasAll_append.mpr ⟨inside.hasAll, closer.has, trivial⟩⟩
  simp only [List.length_cons] at close colon type' semicolon
  have isColon : p.isPunct (p.close i + 1) ":" = true := by
    rw [close]
    exact colon.isPunct_eq ":"
  have expected : p.expectType (p.close i + 2) = .ok (p.close i + 2 + type.length) := by
    rw [close, expectType_eq, typeStop?_of_isPlainType matched plain type' rfl semicolon.has (by decide)]
    rfl
  have place' : p.close i + 2 + type.length + 1 = j := by
    rw [close, ← place, indexSymbols]
    simp only [List.length_cons, List.length_append, List.length_nil]
    omega
  have isSemicolon : p.isPunct (p.close i + 2 + type.length) ";" = true := by
    rw [close]
    exact semicolon.isPunct_eq ";"
  have ended : p.skipPunct ⟨p.close i + 2 + type.length, edits⟩ ";" = ⟨j, edits⟩ := by
    rw [← place']
    exact if_pos isSemicolon
  unfold indexSignature
  dsimp only
  rw [isColon]
  refine bind_eq_ok.mpr ⟨_, expected, ?_⟩
  rw [State.goto, ended]

/-! ## Members -/

theorem MemberHead.parts_ne_nil (head : MemberHead) : allSymbols head.parts ≠ [] := by
  simp [MemberHead.parts]

/-- A method goes on behind its type parameters. -/
theorem classMember_generic (matched : matchBrackets p.tokens = .ok p.partners) {head : MemberHead}
    (proper : head.IsProper) {types : List TypeParameter} (typesProper : ∀ t ∈ types, t.IsProper)
    {g : Signature} {last : Symbol} {i : Nat}
    (line : p.Line i (allSymbols (methodParts head types g last))) (w : Walker) (derived : Bool)
    (close : Nat) (edits : Edits) :
    ∃ k edits', i ≤ k ∧ p.Shows k (mark "(") ∧ p.Reads (k + 1) (allSymbols g.parts) ∧
      p.Has (k + 1 + (allSymbols g.parts).length) last ∧
      i + (allSymbols (methodParts head types g last)).length =
        k + 1 + (allSymbols g.parts).length + 1 ∧
      p.erased i (methodParts head types g last) edits = p.erased (k + 1) g.parts edits' ∧
      p.classMember w derived close ⟨i, edits⟩ =
        p.method w derived head.isAmbient i (i + head.modifiers.length) ⟨k, edits'⟩ := by
  have edits_eq : p.erased i (methodParts head types g last) edits =
      p.erased (i + (allSymbols head.parts).length + (typeParameterSymbols types).length + 1) g.parts
        (p.erased (i + (allSymbols head.parts).length) [⟨true, typeParameterSymbols types⟩]
          (p.erased i head.parts edits)) := by
    rw [methodParts, erased_append, erased_cons_cons, erased_cons, erased_keep, erased_append, erased_keep]
    rfl
  simp only [methodParts, allSymbols_append, allSymbols_cons, allSymbols_nil, List.append_nil,
    List.singleton_append] at line
  obtain ⟨generic, opens, reads⟩ :=
    (reads_append.mp ((line_append (MemberHead.parts_ne_nil head)).mp line).2)
  obtain ⟨own, last', -⟩ := reads_append.mp reads
  have next : p.Marked (i + (allSymbols head.parts).length) ["<", "("] :=
    Marked.before ⟨"(", by simp, opens.has⟩ generic.hasAll rfl (by cases types <;> simp [typeParameterSymbols])
  have other : types = [] → p.isPunct (i + (allSymbols head.parts).length) "<" = false := by
    rintro rfl
    exact opens.isPunct_eq "<"
  have isParenthesis : p.isPunct (i + (allSymbols head.parts).length + (typeParameterSymbols types).length)
      "(" = true := opens.isPunct_eq "("
  refine ⟨_, _, by omega, opens, own, last'.has, ?_, edits_eq, ?_⟩
  · simp only [methodParts, allSymbols_append, allSymbols_cons, allSymbols_nil, List.append_nil,
      List.length_append, List.length_singleton]
    omega
  · rw [classMember_named proper line rfl (next.mono (by simp)),
      blankTypeParameters_eq matched typesProper generic rfl other, blankTo_eq rfl]
    exact if_pos isParenthesis

section Members

variable (matched : matchBrackets p.tokens = .ok p.partners) (read : p.IsRead) {i₀ i j close : Nat}
  (before : i₀ ≤ i)
include matched read before

theorem classMember_field {head : MemberHead} {type : Option (List Symbol)} {value : Option Symbol}
    (proper : (Member.field head type value).IsProper)
    (line : p.Line i (allSymbols (Member.field head type value).innerParts))
    (place : i + (allSymbols (Member.field head type value).innerParts).length = j) (le : j ≤ close)
    (edits : Edits) : p.classMember (p.walkerAt hole i₀) false close ⟨i, edits⟩ =
      .ok ⟨j, p.changed i [(Member.field head type value).plan] edits⟩ := by
  have whole := @blank_erased p read (Member.field head type value).innerParts
    (Member.innerParts_ne_nil _) i j line.hasAll place edits
  obtain ⟨headProper, plain, literal⟩ := proper
  have edits_eq : p.erased i (Member.field head type value).innerParts edits =
      p.erased (i + (allSymbols head.parts).length) [⟨true, annotationSymbols type⟩]
        (p.erased i head.parts edits) := by
    rw [Member.innerParts, erased_append, erased_cons_cons]
    rfl
  simp only [Member.innerParts, allSymbols_append, allSymbols_cons, allSymbols_nil, List.append_nil,
    List.length_append, ← Nat.add_assoc] at line place
  have reads := ((line_append (MemberHead.parts_ne_nil head)).mp line).2
  have place' : i + (allSymbols head.parts).length +
      (annotationSymbols type ++ (valueSymbols value ++ [mark ";"])).length = j := by
    simp only [List.length_append, ← Nat.add_assoc]
    exact place
  obtain ⟨next, field⟩ := @classField_eq p hole matched type plain value literal i₀ _ j close
    (by omega) reads place' le head.isAmbient i (p.erased i head.parts edits)
  have generic : p.blankTypeParameters ⟨i + (allSymbols head.parts).length, p.erased i head.parts edits⟩ =
      .ok ⟨i + (allSymbols head.parts).length, p.erased i head.parts edits⟩ :=
    if_neg (by simp [next.isPunct_eq])
  rw [classMember_named headProper line rfl (next.mono (by simp)), generic]
  refine (if_neg (by simp [next.isPunct_eq])).trans (field.trans ?_)
  rw [← edits_eq]
  cases ambient : head.isAmbient with
  | false =>
    have plan : (Member.field head type value).plan =
        ⟨(Member.field head type value).innerParts, "", []⟩ :=
      if_neg (by simp [Member.isWhole, ambient])
    rw [plan, changed_parts]
    rfl
  | true =>
    rw [@Member.plan_of_isWhole (.field head type value) ambient, changed_parts, if_pos rfl, whole]

omit read in
theorem classMember_method {head : MemberHead} {types : List TypeParameter} {g : Signature}
    (proper : (Member.method head types g).IsProper)
    (line : p.Line i (allSymbols (Member.method head types g).innerParts))
    (place : i + (allSymbols (Member.method head types g).innerParts).length = j)
    (closes : p.Has j (mark closeBrace)) (edits : Edits) :
    p.classMember (p.walkerAt hole i₀) false close ⟨i, edits⟩ =
      .ok ⟨j + 1, p.changed i [(Member.method head types g).plan] edits⟩ := by
  obtain ⟨headProper, typesProper, gProper, ambient, constructs⟩ := proper
  obtain ⟨k, edits', le, opens, own, brace, place', edits_eq, goes⟩ := @classMember_generic p matched head
    headProper types typesProper g _ i line (p.walkerAt hole i₀) false close edits
  obtain rfl : k + 1 + (allSymbols g.parts).length + 1 = j := place'.symm.trans place
  have name : propertiesOf g.entries ≠ [] → p.isWord (i + head.modifiers.length) "constructor" = true := by
    intro some
    have all := line.hasAll
    simp only [Member.innerParts, methodParts, MemberHead.parts, allSymbols_append,
      allSymbols_modifierParts, List.append_assoc] at all
    have atName := (hasAll_append.mp all).2.1
    rw [List.length_map, constructs some] at atName
    exact atName.isWord_eq "constructor"
  have body := @method_body p hole matched g gProper i₀ k _ (by omega) opens own rfl brace closes _ name i edits'
  have plan : p.changed i [(Member.method head types g).plan] edits =
      insertion (p.stop (i + (allSymbols (Member.method head types g).innerParts).length - 1))
        (assignmentCode (propertiesOf g.entries)) ++ p.erased i (Member.method head types g).innerParts edits := rfl
  have last : i + (allSymbols (Member.method head types g).innerParts).length - 1 =
      k + 1 + (allSymbols g.parts).length := by omega
  have edits_eq : p.erased i (Member.method head types g).innerParts edits =
      p.erased (k + 1) g.parts edits' := edits_eq
  rw [goes, ambient, body, plan, last, edits_eq]

theorem classMember_overload {head : MemberHead} {types : List TypeParameter} {g : Signature}
    (proper : (Member.overload head types g).IsProper)
    (line : p.Line i (allSymbols (Member.overload head types g).innerParts))
    (place : i + (allSymbols (Member.overload head types g).innerParts).length = j) (edits : Edits) :
    p.classMember (p.walkerAt hole i₀) false close ⟨i, edits⟩ =
      .ok ⟨j, p.changed i [(Member.overload head types g).plan] edits⟩ := by
  have whole := @blank_erased p read (Member.overload head types g).innerParts
    (Member.innerParts_ne_nil _) i j line.hasAll place edits
  obtain ⟨headProper, typesProper, gProper⟩ := proper
  obtain ⟨k, edits', le, opens, own, semicolon, place', edits_eq, goes⟩ := @classMember_generic p matched head
    headProper types typesProper g _ i line (p.walkerAt hole i₀) false close edits
  obtain rfl : k + 1 + (allSymbols g.parts).length + 1 = j := place'.symm.trans place
  rw [goes, @method_overload p hole matched g gProper i₀ k _ (by omega) opens own rfl semicolon,
    ← edits_eq, @Member.plan_of_isWhole (.overload head types g) rfl, changed_parts]
  exact congrArg Except.ok whole

omit before in
theorem classMember_index {modifiers : List String} {key : String} {keyType type : List Symbol}
    (proper : (Member.index modifiers key keyType type).IsProper)
    (line : p.Line i (allSymbols (Member.index modifiers key keyType type).innerParts))
    (place : i + (allSymbols (Member.index modifiers key keyType type).innerParts).length = j)
    (edits : Edits) : p.classMember (p.walkerAt hole i₀) false close ⟨i, edits⟩ =
      .ok ⟨j, p.changed i [(Member.index modifiers key keyType type).plan] edits⟩ := by
  have whole := @blank_erased p read (Member.index modifiers key keyType type).innerParts
    (Member.innerParts_ne_nil _) i j line.hasAll place edits
  obtain ⟨known, plainKey, plain⟩ := proper
  have edits_eq : p.erased i (Member.index modifiers key keyType type).innerParts edits =
      p.erased i (modifierParts modifiers) edits := by
    rw [Member.innerParts, erased_append]
    rfl
  rw [Member.plan_of_isWhole rfl, changed_parts]
  simp only [Member.innerParts, allSymbols_append, allSymbols_modifierParts, allSymbols_cons,
    allSymbols_nil, List.append_nil, List.length_append, List.length_map, ← Nat.add_assoc] at line place
  have index := line.right
  rw [List.length_map] at index
  obtain ⟨opens, key', colon, -⟩ := index.hasAll
  have stops : p.modifiesMember (i + modifiers.length) = false := by
    refine Bool.and_eq_false_iff.mpr (.inl (Bool.and_eq_false_iff.mpr (.inl ?_)))
    exact opens.isOneOf_eq _
  have isIndex : (p.isPunct (i + modifiers.length) "[" && p.isName (i + modifiers.length + 1) &&
      p.isPunct (i + modifiers.length + 2) ":") = true := by
    rw [opens.isPunct_eq, key'.isName_eq, colon.isPunct_eq]
    rfl
  rw [classMember_modified known rfl line rfl stops, if_pos isIndex,
    indexSignature_eq matched plainKey plain index place, ← edits_eq]
  exact congrArg Except.ok whole

/-- A member is gone through, and what becomes of it is its plan. -/
theorem classMember_eq {member : Member} (proper : member.IsProper)
    (follow : p.Follow i [member.plan]) (place : i + member.plan.symbols.length = j) (le : j ≤ close)
    (edits : Edits) : p.classMember (p.walkerAt hole i₀) false close ⟨i, edits⟩ =
      .ok ⟨j, p.changed i [member.plan] edits⟩ := by
  obtain ⟨line, last, -⟩ := follow
  rw [Plan.symbols, List.length_append, ← Nat.add_assoc] at place
  rw [member.allSymbols_plan] at line last place
  cases member with
  | field head type value =>
    have none : (Member.field head type value).plan.last = [] := by
      unfold Member.plan
      split <;> rfl
    rw [none] at place
    exact classMember_field matched read before proper line place le edits
  | method head types g =>
    have place : i + (allSymbols (Member.method head types g).innerParts).length + 1 = j := place
    rw [← place]
    exact classMember_method matched before proper line rfl last.1 edits
  | overload head types g => exact classMember_overload matched read before proper line place edits
  | index modifiers key keyType type => exact classMember_index matched read proper line place edits

end Members

end Erase.Program

end ModuleLinker
