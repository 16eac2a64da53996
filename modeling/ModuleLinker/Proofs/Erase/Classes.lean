import ModuleLinker.Proofs.Erase.Behind.Members
import ModuleLinker.Proofs.Erase.ClassMembers

/-!
# Classes

A class that extends no other one, with the members of its body (`ClassShape`). Its members are gone
through one after the other, each from where the one before it ends, so that what becomes of the class is
what becomes of its header and of its members (`classDeclaration_eq`). Erasing a text that is such a class
keeps what its members are at run time, and writes the assignments of its properties (`erase_class`).
-/

set_option autoImplicit false

namespace ModuleLinker

open Erase ModuleLinker.Symbol

/-! ## Shapes -/

/-- A class that extends no other one. -/
structure ClassShape where
  /-- The words that export it. -/
  exported : List String
  /-- Whether it is abstract. -/
  isAbstract : Bool
  /-- The name. -/
  name : Option String
  /-- The type parameters. -/
  types : List TypeParameter
  /-- The interfaces that it implements. -/
  interfaces : List (List Symbol)
  /-- The members. -/
  members : List Member

/-- The symbols of the interfaces that a class implements. -/
def interfaceSymbols : List (List Symbol) → List Symbol
  | [] => []
  | interfaces => word "implements" :: separated interfaces

namespace ClassShape

/-- The parts in front of the keyword. -/
def front (c : ClassShape) : List Part :=
  [⟨false, c.exported.map word⟩, ⟨true, if c.isAbstract then [word "abstract"] else []⟩]

/-- The parts from the keyword up to the body. -/
def header (c : ClassShape) : List Part := [
  ⟨false, word "class" :: c.name.elim [] fun x => [word x]⟩, ⟨true, typeParameterSymbols c.types⟩,
  ⟨true, interfaceSymbols c.interfaces⟩]

/-- What becomes of a class. -/
def plans (c : ClassShape) : List Plan :=
  ⟨c.front ++ c.header, "", [mark openBrace]⟩ ::
    (c.members.map Member.plan ++ [⟨[⟨false, [mark closeBrace]⟩], "", []⟩])

/-- Whether a class is written as it should be. -/
structure IsProper (c : ClassShape) : Prop where
  /-- The words in front are those of exports. -/
  exported : c.exported ∈ [[], ["export"], ["export", "default"]]
  /-- The name starts no clause of the header. -/
  name : ∀ x ∈ c.name, x ∉ ["extends", "implements"]
  /-- The type parameters are. -/
  types : ∀ t ∈ c.types, t.IsProper
  /-- The interfaces are plain types. -/
  interfaces : ∀ ss ∈ c.interfaces, IsPlainType ss
  /-- The members are. -/
  members : ∀ member ∈ c.members, member.IsProper

theorem nested_interfaceSymbols {interfaces : List (List Symbol)}
    (plain : ∀ ss ∈ interfaces, IsPlainType ss) : Nested (interfaceSymbols interfaces) := by
  cases interfaces with
  | nil => exact .nil
  | cons ss rest => exact .cons rfl (nested_separated fun ss mem => (plain ss mem).isType.nested)

theorem nested_members {members : List Member} (proper : ∀ member ∈ members, member.IsProper) :
    Nested ((members.map Member.plan).flatMap Plan.symbols) := by
  induction members with
  | nil => exact .nil
  | cons member members ih =>
    rw [List.forall_mem_cons] at proper
    exact proper.1.nested.append (ih proper.2)

/-- The brackets of a class have partners. -/
theorem IsProper.nested {c : ClassShape} (proper : c.IsProper) : Nested (c.plans.flatMap Plan.symbols) := by
  have front : Nested (allSymbols c.front) := by
    refine (nested_words c.exported).append (Nested.append ?_ .nil)
    cases c.isAbstract with
    | true => exact .plain rfl
    | false => exact .nil
  have header : Nested (allSymbols c.header) := by
    refine Nested.append ?_ ((nested_typeParameterSymbols proper.types).append
      ((nested_interfaceSymbols proper.interfaces).append .nil))
    cases c.name with
    | none => exact .plain rfl
    | some x => exact .cons rfl (.plain rfl)
  have whole := (front.append header).append
    (@Nested.bracket openBrace _ (by decide) (nested_members proper.members))
  simpa [plans, Plan.symbols, closerOf, openBrace] using whole

/-- Code is only written in the bodies of members. -/
theorem sound (c : ClassShape) : ∀ plan ∈ c.plans, plan.IsSound := by
  intro plan mem
  simp only [plans, List.mem_cons, List.mem_append, List.mem_map, List.not_mem_nil, or_false] at mem
  obtain rfl | ⟨member, -, rfl⟩ | rfl := mem
  · exact fun code => absurd rfl code
  · exact member.sound
  · exact fun code => absurd rfl code

end ClassShape

namespace Erase.Program

variable {p : Program} {hole : Hole → Except Failure Edits}

/-! ## Headers -/

section Headers

variable (report : Nat)

/-- The search for a body passes a symbol that is no brace and opens no type arguments. -/
theorem bodyAhead_next {i : Nat} {s : Symbol} (has : p.Has i s) (noBrace : s ≠ mark openBrace)
    (noAngle : s ≠ mark "<") : p.bodyAhead report i = p.bodyAhead report (i + 1) := by
  have notBrace := has.isPunct_of_ne noBrace
  have notAngle := has.isPunct_of_ne noAngle
  obtain ⟨t, found, -⟩ := has
  rw [isPunct, is, found, Option.any_some] at notBrace notAngle
  rw [bodyAhead_eq, found, Option.elim_some, notBrace, notAngle]
  rfl

theorem bodyAhead_of_other {ss : List Symbol} (other : ∀ s ∈ ss, s ≠ mark openBrace ∧ s ≠ mark "<")
    {i : Nat} (has : p.HasAll i ss) : p.bodyAhead report i = p.bodyAhead report (i + ss.length) := by
  induction ss generalizing i with
  | nil => rfl
  | cons s ss ih =>
    rw [List.forall_mem_cons] at other
    have place : i + (s :: ss).length = i + 1 + ss.length := by
      rw [List.length_cons]
      omega
    rw [bodyAhead_next report has.1 other.1.1 other.1.2, ih other.2 has.2, place]

theorem bodyAhead_qualified {first : String} {segments : List String} {i : Nat}
    (has : p.HasAll i (qualified first segments)) :
    p.bodyAhead report i = p.bodyAhead report (i + (qualified first segments).length) := by
  refine bodyAhead_of_other report (fun s mem => ?_) has
  simp only [List.mem_cons, List.mem_flatMap, List.not_mem_nil, or_false] at mem
  obtain rfl | ⟨name, -, rfl | rfl⟩ := mem <;> simp [word, mark, openBrace]

variable (matched : matchBrackets p.tokens = .ok p.partners)
include matched

/-- The search for a body passes type arguments as a whole. -/
theorem bodyAhead_arguments {arguments : List (List Symbol)}
    (plain : ∀ ss ∈ arguments, IsPlainType ss) {i j : Nat}
    (reads : p.Reads i (mark "<" :: (separated arguments ++ [mark ">"])))
    (place : i + 1 + (separated arguments).length + 1 = j) :
    p.bodyAhead report i = p.bodyAhead report j := by
  obtain ⟨opener, rest⟩ := reads
  obtain ⟨inside, closer, -⟩ := reads_append.mp rest
  have passed := isPassed_separated (fun ss mem => (plain ss mem).isType.isPassed) p matched 0 _ inside
  have stop : p.angleStop? 0 (i + 1) = some j := by
    rw [passed, closer.angleStop?_closer, if_pos rfl, place]
  have notBrace : p.isPunct i openBrace = false := opener.isPunct_eq openBrace
  have isAngle : p.isPunct i "<" = true := opener.isPunct_eq "<"
  obtain ⟨t, found, -⟩ := opener
  rw [isPunct, is, found, Option.any_some] at notBrace isAngle
  rw [bodyAhead_eq, found, Option.elim_some, notBrace, isAngle, stop]
  rfl

/-- The search for a body passes a plain type. -/
theorem bodyAhead_of_isPlainType {ss : List Symbol} (plain : IsPlainType ss) {i : Nat}
    (reads : p.Reads i ss) : p.bodyAhead report i = p.bodyAhead report (i + ss.length) := by
  induction plain generalizing i with
  | @name first segments => exact bodyAhead_qualified report reads.hasAll
  | @generic first segments arguments _ _ plain _ =>
    obtain ⟨name, angle⟩ := reads_append.mp reads
    rw [bodyAhead_qualified report name.hasAll, bodyAhead_arguments report matched plain angle rfl]
    congr 1
    simp
    omega
  | @array ss _ ih =>
    obtain ⟨inside, rest⟩ := reads_append.mp reads
    rw [ih inside, bodyAhead_of_other report (by decide) rest.hasAll, List.length_append, Nat.add_assoc]
  | @grouped ss _ ih =>
    obtain ⟨group, brackets⟩ := reads_append.mp reads
    obtain ⟨opens, rest⟩ := group
    obtain ⟨inside, closer, -⟩ := reads_append.mp rest
    have place : i + (mark "(" :: (ss ++ [mark ")"])).length = i + 1 + ss.length + 1 := by
      simp
      omega
    rw [place] at brackets
    rw [bodyAhead_next report opens.has (by decide) (by decide), ih inside,
      bodyAhead_next report closer.has (by decide) (by decide),
      bodyAhead_of_other report (by decide) brackets.hasAll, ← place, List.length_append, Nat.add_assoc]
  | @union ss ts _ _ ih ih' =>
    obtain ⟨inside, bar, rest⟩ := reads_append.mp reads
    rw [ih inside, bodyAhead_next report bar.has (by decide) (by decide), ih' rest]
    congr 1
    simp
    omega

/-- The interfaces of a class are passed up to its body. -/
theorem bodyAhead_interfaces {interfaces : List (List Symbol)}
    (plain : ∀ ss ∈ interfaces, IsPlainType ss) {i j : Nat} (reads : p.Reads i (separated interfaces))
    (place : i + (separated interfaces).length = j) (brace : p.Has j (mark openBrace)) :
    p.bodyAhead report i = .ok j := by
  have found : p.bodyAhead report j = .ok j := by
    have isBrace : p.isPunct j openBrace = true := brace.isPunct_eq openBrace
    obtain ⟨t, found, -⟩ := brace
    rw [isPunct, is, found, Option.any_some] at isBrace
    rw [bodyAhead_eq, found, Option.elim_some, isBrace]
    rfl
  rw [← found, ← place]
  clear place brace found
  fun_induction separated interfaces generalizing i with
  | case1 => rfl
  | case2 ss => exact bodyAhead_of_isPlainType report matched (plain ss List.mem_cons_self) reads
  | case3 ss rest _ ih =>
    rw [List.forall_mem_cons] at plain
    obtain ⟨first, comma, reads⟩ := reads_append.mp reads
    rw [bodyAhead_of_isPlainType report matched plain.1 first,
      bodyAhead_next report comma.has (by decide) (by decide), ih plain.2 reads]
    congr 1
    simp
    omega

end Headers

/-! ## Bodies -/

/-- The members of a class are gone through one after the other. -/
theorem classMembers_eq (matched : matchBrackets p.tokens = .ok p.partners) (read : p.IsRead)
    {members : List Member} (proper : ∀ member ∈ members, member.IsProper) {i₀ i close : Nat}
    (before : i₀ ≤ i) (follow : p.Follow i (members.map Member.plan))
    (place : i + ((members.map Member.plan).flatMap Plan.symbols).length = close) (edits : Edits) :
    p.classMembers (p.walkerAt hole i₀) false close ⟨i, edits⟩ =
      .ok ⟨close, p.changed i (members.map Member.plan) edits⟩ := by
  induction members generalizing i edits with
  | nil =>
    obtain rfl : i = close := place
    rw [classMembers]
    exact if_neg (Nat.lt_irrefl i)
  | cons member members ih =>
    rw [List.forall_mem_cons] at proper
    rw [List.map_cons, List.flatMap_cons, List.length_append, ← Nat.add_assoc] at place
    obtain ⟨line, last, rest⟩ := follow
    have some : 0 < member.plan.symbols.length := by
      rw [Plan.symbols, member.allSymbols_plan, List.length_append]
      exact Nat.add_pos_left (List.length_pos_iff.mpr member.innerParts_ne_nil) _
    have own := @classMember_eq p hole matched read i₀ i _ close before member proper.1
      ⟨line, last, trivial⟩ rfl (by omega) edits
    rw [classMembers, if_pos (by dsimp only; omega), own]
    dsimp only
    rw [past_eq_self (Nat.lt_add_of_pos_right some), ih proper.2 (by omega) rest place]
    rfl

/-- What stands at a body or at the interfaces in front of it. -/
theorem interfaces_or_body {interfaces : List (List Symbol)} {i k : Nat}
    (reads : p.Reads i (interfaceSymbols interfaces)) (place : i + (interfaceSymbols interfaces).length = k)
    (brace : p.Has k (mark openBrace)) :
    p.isPunct i "<" = false ∧ p.isWord i "extends" = false ∧
      p.isName i = (!interfaces.isEmpty) ∧ p.isWord i "implements" = !interfaces.isEmpty := by
  cases interfaces with
  | nil =>
    obtain rfl : i = k := place
    exact ⟨brace.isPunct_eq "<", brace.isWord_eq "extends", brace.isName_eq, brace.isWord_eq "implements"⟩
  | cons ss rest =>
    exact ⟨reads.1.isPunct_eq "<", reads.1.isWord_eq "extends", reads.1.isName_eq,
      reads.1.isWord_eq "implements"⟩

/-- The name of a class is found, whether it has one or not. -/
theorem className_eq {name : Option String} (free : ∀ x ∈ name, x ∉ ["extends", "implements"])
    {i : Nat} (has : p.HasAll (i + 1) (name.elim [] fun x => [word x]))
    (other : name = none → p.isName (i + 1) = true → p.isWord (i + 1) "implements" = true) :
    (if p.isName (i + 1) && !p.isWord (i + 1) "extends" && !p.isWord (i + 1) "implements" then i + 2
      else i + 1) = i + (word "class" :: name.elim [] fun x => [word x]).length := by
  cases name with
  | none =>
    refine if_neg fun both => ?_
    rw [Bool.and_eq_true, Bool.and_eq_true, Bool.not_eq_true', Bool.not_eq_true'] at both
    exact Bool.false_ne_true (both.2.symm.trans (other rfl both.1.1))
  | some x =>
    have free := free x rfl
    simp only [List.mem_cons, List.not_mem_nil, or_false, not_or] at free
    have name : p.isName (i + 1) = true := has.1.isName_eq
    rw [name, has.1.isWord_eq, has.1.isWord_eq, isWord_token_word, isWord_token_word]
    simp [free]

/-- A class is gone through from its keyword to the end of its body, wherever it stands. -/
theorem classDeclaration_eq (matched : matchBrackets p.tokens = .ok p.partners) (read : p.IsRead)
    {c : ClassShape} (proper : c.IsProper) {i₀ i k j : Nat} (before : i₀ ≤ i)
    (line : p.Line i (allSymbols c.header)) (place : i + (allSymbols c.header).length = k)
    (brace : p.Has k (mark openBrace)) (follow : p.Follow (k + 1) (c.members.map Member.plan))
    (place' : k + 1 + ((c.members.map Member.plan).flatMap Plan.symbols).length = j)
    (closer : p.Has j (mark closeBrace)) (resume : Nat) (s : State) :
    p.classDeclaration (p.walkerAt hole i₀) i resume s =
      .ok ⟨j + 1, p.changed (k + 1) (c.members.map Member.plan) (p.erased i c.header s.edits)⟩ := by
  have body : p.HasAll k (mark openBrace ::
      ((c.members.map Member.plan).flatMap Plan.symbols ++ [mark closeBrace])) := by
    refine ⟨brace, hasAll_append.mpr ⟨follow.hasAll, ?_, trivial⟩⟩
    rwa [place']
  have close : p.close k = j := by
    rw [← place']
    exact @HasAll.close_eq p k openBrace _ matched (by decide) (ClassShape.nested_members proper.members) body
  have edits_eq : p.erased i c.header s.edits =
      p.erased (i + (word "class" :: c.name.elim [] fun x => [word x]).length + (typeParameterSymbols c.types).length)
        [⟨true, interfaceSymbols c.interfaces⟩]
        (p.erased (i + (word "class" :: c.name.elim [] fun x => [word x]).length)
          [⟨true, typeParameterSymbols c.types⟩] s.edits) := by
    rw [ClassShape.header, erased_cons_cons, erased_cons_cons, erased_keep]
  simp only [ClassShape.header, allSymbols_cons, allSymbols_nil, List.append_nil, List.length_append,
    ← Nat.add_assoc] at line place
  have named := line.hasAll.2
  have reads := ((line_append (List.cons_ne_nil _ _)).mp line).2
  obtain ⟨generic, interfaces⟩ := reads_append.mp reads
  set n := i + (word "class" :: c.name.elim [] fun x => [word x]).length with n_eq
  obtain ⟨noAngle, noBase, isName, implements⟩ := interfaces_or_body interfaces place brace
  have unnamed : c.name = none → p.isName (i + 1) = true → p.isWord (i + 1) "implements" = true := by
    intro none name
    have here : n = i + 1 := by simp [n_eq, none]
    rw [← here] at name ⊢
    cases types : c.types with
    | nil =>
      simp only [types, typeParameterSymbols, List.length_nil, Nat.add_zero] at isName implements
      rw [implements, ← isName, name]
    | cons t ts =>
      rw [types] at generic
      exact absurd (generic.1.isName_eq.symm.trans name) (by decide)
  have noTypes : c.types = [] → p.isPunct n "<" = false := by
    intro none
    simpa [none, typeParameterSymbols] using noAngle
  have name_eq := className_eq proper.name (hasAll_append.mp named).1 unnamed
  have typed := blankTypeParameters_eq matched proper.types generic rfl noTypes s.edits
  rw [blankTo_eq rfl] at typed
  have inside (edits : Edits) := @classMembers_eq p hole matched read _ proper.members i₀ (k + 1) j (by omega)
    follow place' edits
  have isBrace : p.isPunct k openBrace = true := brace.isPunct_eq openBrace
  unfold classDeclaration
  rw [name_eq, ← n_eq]
  refine bind_eq_ok.mpr ⟨_, typed, ?_⟩
  dsimp only
  rw [noBase]
  refine bind_eq_ok.mpr ⟨_, rfl, ?_⟩
  dsimp only
  rw [implements, edits_eq]
  cases same : c.interfaces with
  | nil =>
    simp only [same, interfaceSymbols, List.length_nil, Nat.add_zero] at place
    refine bind_eq_ok.mpr ⟨_, rfl, ?_⟩
    dsimp only
    rw [place, isBrace, close, interfaceSymbols, erased_empty]
    exact bind_eq_ok.mpr ⟨_, inside _, rfl⟩
  | cons ss rest =>
    rw [same] at interfaces place
    obtain ⟨keyword, list⟩ := interfaces
    have ahead : p.bodyAhead (n + (typeParameterSymbols c.types).length)
        (n + (typeParameterSymbols c.types).length) = .ok k := by
      rw [bodyAhead_next _ keyword.has (by simp [word, mark]) (by simp [word, mark])]
      refine bodyAhead_interfaces _ matched (fun ss mem => proper.interfaces ss (same ▸ mem)) list ?_ brace
      rw [← place]
      simp only [interfaceSymbols, List.length_cons]
      omega
    refine bind_eq_ok.mpr ⟨_, ahead, bind_eq_ok.mpr ⟨_, rfl, ?_⟩⟩
    rw [blankTo_eq place]
    dsimp only
    rw [isBrace, close]
    exact bind_eq_ok.mpr ⟨_, inside _, rfl⟩

/-! ## Texts -/

section Keywords

variable {i : Nat} (w : Walker)

theorem afterDot_of_word {x : String} (has : p.Has i (word x)) : p.afterDot (i + 1) = false := by
  rw [afterDot, Nat.add_sub_cancel, has.is_eq fun _ => rfl, Bool.and_eq_false_iff]
  exact .inr rfl

theorem step_class (has : p.Has i (word "class")) (noDot : p.afterDot i = false) (limit : Nat)
    (edits : Edits) : p.step w limit ⟨i, edits⟩ = p.classDeclaration w i (i + 1) ⟨i, edits⟩ := by
  rw [step_eq_stepWord has, stepWord]
  dsimp only
  rw [noDot, has.text_eq]
  rfl

theorem step_abstract (begins : p.Begins i) (has : p.Has i (word "abstract")) (limit : Nat)
    (edits : Edits) :
    p.step w limit ⟨i, edits⟩ = p.typeStatement w i i (i + 1) ⟨i, edits⟩ := by
  rw [step_eq_stepWord has, stepWord]
  dsimp only
  rw [begins.afterDot_eq, has.text_eq, begins.startsStatement_eq]
  rfl

/-- The word in front of an abstract class is overwritten. -/
theorem typeStatement_abstract (has : p.Has i (word "abstract")) (keyword : p.Shows (i + 1) (word "class"))
    (start resume : Nat) (s : State) : p.typeStatement w i start resume s =
      p.classDeclaration w (i + 1) resume (p.blank s i (i + 1)) := by
  rw [typeStatement]
  dsimp only
  rw [has.text_eq, keyword.isWord_eq, keyword.newlineBefore_eq]
  rfl

/-- A word that starts no declaration with types is left to the walk behind an export. -/
theorem exportDeclaration_class (has : p.Has (i + 1) (word "class")) (s : State) :
    p.exportDeclaration w i s = .ok (s.goto (i + 1)) := by
  unfold exportDeclaration
  dsimp only
  simp only [has.isPunct_eq, has.isWord_eq, has.isOneOf_eq]
  rfl

theorem exportDeclaration_abstract (has : p.Has (i + 1) (word "abstract")) (s : State) :
    p.exportDeclaration w i s = p.typeStatement w (i + 1) i (i + 1) s := by
  unfold exportDeclaration
  dsimp only
  simp only [has.isPunct_eq, has.isWord_eq, has.isOneOf_eq]
  rfl

theorem exportDeclaration_default (has : p.Has (i + 1) (word "default")) {x : String}
    (has' : p.Has (i + 2) (word x)) (known : x = "class" ∨ x = "abstract") (s : State) :
    p.exportDeclaration w i s = if x = "abstract" then p.typeStatement w (i + 2) i (i + 2) s
      else .ok (s.goto (i + 2)) := by
  unfold exportDeclaration
  dsimp only
  simp only [has.isPunct_eq, has.isWord_eq, has'.isWord_eq]
  rcases known with rfl | rfl <;> rfl

end Keywords

/-- A step that goes to the end of a text ends the walk. -/
theorem walk_of_last {i : Nat} {edits edits' : Edits} (inside : i < p.tokens.size)
    (step : p.step (p.walkerAt hole i) p.tokens.size ⟨i, edits⟩ = .ok ⟨p.tokens.size, edits'⟩) :
    p.walk hole p.tokens.size nowhere ⟨i, edits⟩ = .ok ⟨p.tokens.size, edits'⟩ := by
  rw [walk_eq_step inside inside rfl step inside, walk_of_limit]

/-- The words in front of a class are passed, and the one that makes it abstract is overwritten. -/
theorem walk_front {c : ClassShape} (exported : c.exported ∈ [[], ["export"], ["export", "default"]])
    (line : p.Line 0 (allSymbols c.front ++ [word "class"])) {edits : Edits}
    (declared : ∀ i₀ ≤ (allSymbols c.front).length, ∀ resume s, s.edits = p.erased 0 c.front [] →
      p.classDeclaration (p.walkerAt hole i₀) (allSymbols c.front).length resume s =
        .ok ⟨p.tokens.size, edits⟩) :
    p.walk hole p.tokens.size nowhere ⟨0, []⟩ = .ok ⟨p.tokens.size, edits⟩ := by
  have begins : p.Begins 0 := .inl rfl
  obtain ⟨exports, isAbstract, name, types, interfaces, members⟩ := c
  simp only [List.mem_cons, List.not_mem_nil, or_false] at exported
  obtain rfl | rfl | rfl := exported <;> cases isAbstract
  · have has : p.Has 0 (word "class") := line.1
    refine walk_of_last has.lt_size ?_
    rw [step_class _ has begins.afterDot_eq]
    exact declared 0 (Nat.zero_le _) 1 _ rfl
  · obtain ⟨has, keyword, -⟩ : p.Line 0 [word "abstract", word "class"] := line
    refine walk_of_last has.lt_size ?_
    rw [step_abstract _ begins has, typeStatement_abstract _ has keyword]
    exact declared 0 (Nat.zero_le _) 1 _ rfl
  · obtain ⟨has, keyword, -⟩ : p.Line 0 [word "export", word "class"] := line
    have passed : p.step (p.walkerAt hole 0) p.tokens.size ⟨0, []⟩ = .ok ⟨1, []⟩ := by
      rw [step_export begins _ _ _ has, exportDeclaration_class _ keyword.has]
      rfl
    rw [walk_eq_step has.lt_size has.lt_size rfl passed Nat.one_pos]
    refine walk_of_last keyword.has.lt_size ?_
    rw [step_class _ keyword.has (afterDot_of_word has)]
    exact declared 1 le_rfl 2 _ rfl
  · obtain ⟨has, has', keyword, -⟩ : p.Line 0 [word "export", word "abstract", word "class"] := line
    refine walk_of_last has.lt_size ?_
    rw [step_export begins _ _ _ has, exportDeclaration_abstract _ has'.has,
      typeStatement_abstract _ has'.has keyword]
    exact declared 0 (Nat.zero_le _) 1 _ rfl
  · obtain ⟨has, has', keyword, -⟩ : p.Line 0 [word "export", word "default", word "class"] := line
    have passed : p.step (p.walkerAt hole 0) p.tokens.size ⟨0, []⟩ = .ok ⟨2, []⟩ := by
      rw [step_export begins _ _ _ has, exportDeclaration_default _ has'.has keyword.has (.inl rfl)]
      rfl
    rw [walk_eq_step has.lt_size has.lt_size rfl passed Nat.two_pos]
    refine walk_of_last keyword.has.lt_size ?_
    rw [step_class _ keyword.has (afterDot_of_word has'.has)]
    exact declared 2 le_rfl 3 _ rfl
  · obtain ⟨has, has', has'', keyword, -⟩ :
      p.Line 0 [word "export", word "default", word "abstract", word "class"] := line
    refine walk_of_last has.lt_size ?_
    rw [step_export begins _ _ _ has, exportDeclaration_default _ has'.has has''.has (.inr rfl),
      if_pos rfl, typeStatement_abstract _ has''.has keyword]
    exact declared 0 (Nat.zero_le _) 2 _ rfl

/-- A text that is a class is walked through. -/
theorem walk_class (matched : matchBrackets p.tokens = .ok p.partners) (read : p.IsRead)
    {c : ClassShape} (proper : c.IsProper) (follow : p.Follow 0 c.plans)
    (size : (c.plans.flatMap Plan.symbols).length = p.tokens.size) :
    p.walk hole p.tokens.size nowhere ⟨0, []⟩ = .ok ⟨p.tokens.size, p.changed 0 c.plans []⟩ := by
  obtain ⟨line, ⟨brace, -⟩, follow⟩ := follow
  obtain ⟨follow, ⟨closer, -⟩, -⟩ := follow_append.mp follow
  set f := (allSymbols c.front).length with f_eq
  set k := f + (allSymbols c.header).length with k_eq
  have header_eq : (allSymbols (c.front ++ c.header)).length = k := by
    rw [allSymbols_append, List.length_append]
  have place : 0 + (Plan.symbols ⟨c.front ++ c.header, "", [mark openBrace]⟩).length = k + 1 := by
    rw [Plan.symbols, List.length_append, header_eq, Nat.zero_add]
    rfl
  rw [place] at follow closer
  dsimp only at line brace
  rw [header_eq, Nat.zero_add] at brace
  set j := k + 1 + ((c.members.map Member.plan).flatMap Plan.symbols).length with j_eq
  have size' : j + 1 = p.tokens.size := by
    rw [← size, ClassShape.plans, List.flatMap_cons, List.length_append, List.flatMap_append,
      List.length_append, j_eq, ← place, Nat.zero_add, Nat.add_assoc]
    rfl
  have edits_eq : p.changed 0 c.plans [] =
      p.changed (k + 1) (c.members.map Member.plan) (p.erased f c.header (p.erased 0 c.front [])) := by
    have head : p.erased 0 (c.front ++ c.header) [] = p.erased f c.header (p.erased 0 c.front []) := by
      rw [erased_append, Nat.zero_add]
    have split := @changed_append p (k + 1) (c.members.map Member.plan)
      [⟨[⟨false, [mark closeBrace]⟩], "", []⟩] (p.erased f c.header (p.erased 0 c.front []))
    rw [changed_parts, erased_keep] at split
    rw [ClassShape.plans, changed, place, head]
    exact split
  rw [allSymbols_append] at line
  have header := line.right
  have front : p.Line 0 (allSymbols c.front ++ [word "class"]) := by
    have split : allSymbols c.front ++ allSymbols c.header = allSymbols c.front ++ [word "class"] ++
        ((c.name.elim [] fun x => [word x]) ++ (typeParameterSymbols c.types ++ interfaceSymbols c.interfaces)) := by
      simp [ClassShape.header]
    rw [split, line_append (by simp)] at line
    exact line.1
  rw [Nat.zero_add] at header
  rw [edits_eq]
  refine walk_front proper.exported front fun i₀ le resume s same => ?_
  rw [← same, ← size']
  exact classDeclaration_eq matched read proper le header k_eq.symm brace follow j_eq.symm closer resume s

end Erase.Program

/-- Erasing a class overwrites what there is of it for the types alone, and assigns its properties at the
start of the body of its constructor. -/
theorem erase_class {c : ClassShape} (proper : c.IsProper) {segments : List Segment}
    (same : segments.map Segment.plan = c.plans) (lines : ∀ segment ∈ segments, segment.IsLine)
    {last : List Char} (readable : isReadable (segmentPieces segments) last = true)
    (blank : isGap last = true) :
    erase (spell (segmentPieces segments) last) = .ok (revised segments last) := by
  refine erase_segments readable blank lines ?_ ?_ fun p hole read matched follow size => ?_
  · intro segment mem
    exact c.sound _ (same ▸ List.mem_map_of_mem mem)
  · rw [same]
    exact proper.nested
  · rw [same] at follow size ⊢
    exact Program.walk_class matched read proper follow size

/-! ## A class with every kind of member -/

/-- The stretches of parts, with a space in front of each symbol but the first one. -/
def spacedBy : Char → List Part → List Stretch
  | _, [] => []
  | gap, ⟨erased, []⟩ :: parts => ⟨erased, []⟩ :: spacedBy gap parts
  | gap, ⟨erased, s :: ss⟩ :: parts =>
    ⟨erased, ⟨[gap], s⟩ :: ss.map fun s => ⟨[' '], s⟩⟩ :: spacedBy ' ' parts

/-- A plan on a line of its own. -/
def Plan.onLine (plan : Plan) : Segment :=
  ⟨spacedBy '\n' plan.parts, plan.code, plan.last.map fun s => ⟨[' '], s⟩⟩

/-- A class with every kind of member. -/
def manifoldClass : ClassShape where
  exported := ["export", "default"]
  isAbstract := true
  name := some "Box"
  types := [⟨"T", some [word "A"], none⟩]
  interfaces := [[word "I", mark "<", word "T", mark ">"], [word "J"]]
  members := [
    .field ⟨["private", "static", "readonly"], word "size", some "?"⟩
      (some [word "T", mark "[", mark "]", mark "|", word "null"]) (some ⟨.string, "'a'"⟩),
    .field ⟨["declare"], word "tag", none⟩ (some [word "T"]) none,
    .index ["readonly"] "key" [word "string"] [word "T"],
    .method ⟨[], word "constructor", none⟩ []
      ⟨[.binds ⟨["public"], .name "x", false, some [word "T"], none⟩,
        .binds ⟨["readonly"], .name "y", true, none, some ⟨.number, "1"⟩⟩,
        .binds ⟨[], .rest "z", false, none, none⟩], false, none⟩,
    .overload ⟨["abstract"], word "area", none⟩ [] ⟨[], false, some [word "number"]⟩,
    .method ⟨["override", "async"], word "of", none⟩ [⟨"U", none, none⟩]
      ⟨[.this [word "Box"], .binds ⟨[], .object ["a", "b"], false, some [word "U"], none⟩], true,
        some [word "U"]⟩]

theorem isPlainType_word {x : String} (other : x ∉ typeOperators) : IsPlainType [word x] :=
  @IsPlainType.name x [] other

/-- A class with every kind of member keeps its name, its fields with their values, and its methods, and
assigns its two properties. -/
theorem erase_manifoldClass :
    erase ("\nexport default abstract class Box < T extends A > implements I < T > , J \x7b".toList ++
        "\nprivate static readonly size ? : T [ ] | null = 'a' ;".toList ++
        "\ndeclare tag : T ;\nreadonly [ key : string ] : T ;".toList ++
        "\nconstructor ( public x : T , readonly y ? = 1 , ... z ) \x7b \x7d".toList ++
        "\nabstract area ( ) : number ;".toList ++
        "\noverride async of < U > ( this : Box , \x7b a , b \x7d : U , ) : U \x7b \x7d\n\x7d".toList) =
      .ok ("\nexport default          class Box                                        \x7b".toList ++
        "\n        static          size                  = 'a' ;".toList ++
        "\n                 \n                               ".toList ++
        "\nconstructor (        x     ,          y   = 1 , ... z ) \x7b this.x = x; this.y = y; \x7d".toList ++
        "\n                            ".toList ++
        "\n         async of       (              \x7b a , b \x7d     , )     \x7b \x7d\n\x7d".toList) := by
  have name (x : String) (other : x ∉ typeOperators) : IsPlainType [word x] := isPlainType_word other
  have generic : IsPlainType [word "I", mark "<", word "T", mark ">"] :=
    @IsPlainType.generic "I" [] [[word "T"]] (by decide) (by decide) (by simp [name "T" (by decide)])
  have union : IsPlainType [word "T", mark "[", mark "]", mark "|", word "null"] :=
    .union (.array (name "T" (by decide))) (name "null" (by decide))
  have typed {ss : List Symbol} (plain : IsPlainType ss) : ∀ ss' ∈ some ss, IsPlainType ss' := by
    rintro _ ⟨⟩
    exact plain
  have untyped : ∀ ss ∈ (none : Option (List Symbol)), IsPlainType ss := by rintro _ ⟨⟩
  have members : ∀ member ∈ manifoldClass.members, member.IsProper := by
    simp only [manifoldClass, List.forall_mem_cons]
    refine ⟨⟨⟨by decide, rfl, by decide⟩, typed union, by decide⟩,
      ⟨⟨by decide, rfl, by decide⟩, typed (name "T" (by decide)), by decide⟩,
      ⟨by decide, name "string" (by decide), name "T" (by decide)⟩,
      ⟨⟨by decide, rfl, by decide⟩, by simp, ⟨?_, untyped⟩, by decide, by decide⟩,
      ⟨⟨by decide, rfl, by decide⟩, by simp, ⟨by simp, typed (name "number" (by decide))⟩⟩,
      ⟨⟨by decide, rfl, by decide⟩, ?_, ⟨?_, typed (name "U" (by decide))⟩, by decide, by decide⟩, by simp⟩
    · simp only [List.forall_mem_cons]
      exact ⟨⟨by decide, by decide, by decide, typed (name "T" (by decide)), by decide⟩,
        ⟨by decide, by decide, by decide, untyped, by decide⟩,
        ⟨by decide, by decide, by decide, untyped, by decide⟩, by simp⟩
    · exact List.forall_mem_singleton.mpr ⟨untyped, untyped⟩
    · simp only [List.forall_mem_cons]
      exact ⟨name "Box" (by decide), ⟨by decide, by decide, by decide, typed (name "U" (by decide)), by decide⟩,
        by simp⟩
  have proper : manifoldClass.IsProper :=
    ⟨by decide, by decide, List.forall_mem_singleton.mpr ⟨typed (name "A" (by decide)), untyped⟩,
      List.forall_mem_cons.mpr ⟨generic, List.forall_mem_singleton.mpr (name "J" (by decide))⟩, members⟩
  have lines : ∀ segment ∈ manifoldClass.plans.map Plan.onLine, segment.IsLine := by
    simp only [Segment.IsLine]
    decide +kernel
  have done := @erase_class manifoldClass proper (manifoldClass.plans.map Plan.onLine) (by decide +kernel)
    lines [] (by decide +kernel) rfl
  have text : spell (segmentPieces (manifoldClass.plans.map Plan.onLine)) [] =
      "\nexport default abstract class Box < T extends A > implements I < T > , J \x7b".toList ++
        "\nprivate static readonly size ? : T [ ] | null = 'a' ;".toList ++
        "\ndeclare tag : T ;\nreadonly [ key : string ] : T ;".toList ++
        "\nconstructor ( public x : T , readonly y ? = 1 , ... z ) \x7b \x7d".toList ++
        "\nabstract area ( ) : number ;".toList ++
        "\noverride async of < U > ( this : Box , \x7b a , b \x7d : U , ) : U \x7b \x7d\n\x7d".toList := by
    decide +kernel
  rw [← text, done]
  exact congrArg Except.ok (by decide +kernel)

end ModuleLinker
