import Mathlib.Data.List.Basic
import Mathlib.Data.List.TakeWhile
import ModuleLinker.Proofs.Url.Written
import ModuleLinker.Specifier

/-!
# Specifiers in their written form

A specifier that is read from a text, or resolved from a reference, is in the written form of one: its
path starts with a slash and has no question mark in it. Specifiers in their written form are told
apart by their texts, so that whatever is kept under the text of a module is kept for that module.
-/

set_option autoImplicit false

namespace ModuleLinker

open Text Url

/-! ## Paths -/

namespace Url.Path

theorem head?_of_isPrefix {a b : List Char} (h : a <+: b) (some : a ≠ []) : a.head? = b.head? := by
  obtain ⟨rest, rfl⟩ := h
  exact (List.head?_append_of_ne_nil a some).symm

theorem directory_isPrefix (path : List Char) : directory path <+: path := by
  unfold directory
  rw [← List.reverse_suffix, List.reverse_reverse]
  exact List.dropWhile_suffix _

theorem directory_ne_nil {path : List Char} (mem : '/' ∈ path) : directory path ≠ [] := by
  intro none
  rw [directory, List.reverse_eq_nil_iff, List.dropWhile_eq_nil_iff] at none
  have slash := none '/' (List.mem_reverse.mpr mem)
  simp at slash

theorem parent_isPrefix (path : List Char) : parent path <+: path := by
  unfold parent
  dsimp only
  split
  · exact List.prefix_rfl
  · exact (directory_isPrefix _).trans (List.dropLast_prefix path)

theorem parent_ne_nil {path : List Char} (some : path ≠ []) : parent path ≠ [] := by
  unfold parent
  dsimp only
  split
  case isTrue => exact some
  case isFalse inner =>
    apply directory_ne_nil
    simp only [Bool.or_eq_true, not_or] at inner
    simpa using inner.1.2

/-- What is known of a path that is being built. -/
structure IsRooted (path : List Char) : Prop where
  slash : path.head? = some '/'
  query : '?' ∉ path

theorem IsRooted.ne_nil {path : List Char} (h : IsRooted path) : path ≠ [] := by
  rintro rfl
  cases h.slash

theorem IsRooted.append {path more : List Char} (h : IsRooted path) (clean : '?' ∉ more) :
    IsRooted (path ++ more) where
  slash := by rw [List.head?_append_of_ne_nil path h.ne_nil]; exact h.slash
  query := by
    rw [List.mem_append, not_or]
    exact ⟨h.query, clean⟩

theorem IsRooted.ofPrefix {path part : List Char} (h : IsRooted path) (isPart : part <+: path)
    (some : part ≠ []) : IsRooted part where
  slash := (head?_of_isPrefix isPart some).trans h.slash
  query mem := h.query (isPart.subset mem)

theorem isRooted_base {path : List Char} (h : IsRooted path) (isFile : Bool) :
    IsRooted (Path.base isFile path) := by
  unfold Path.base
  dsimp only
  split
  · exact h
  · apply h.ofPrefix (directory_isPrefix path)
    apply directory_ne_nil
    obtain ⟨rest, rfl⟩ : ∃ rest, path = '/' :: rest := List.head?_eq_some_iff.mp h.slash
    exact List.mem_cons_self

theorem question_not_mem_percentEncode (cs : List Char) : '?' ∉ percentEncode isPlain cs :=
  not_mem_percentEncode cs (by decide) (by decide)

/-- A question mark never gets into a path. -/
theorem question_not_mem_push {isFile slash : Bool} {s : State} (raw : List Char)
    (clean : '?' ∉ s.path) : '?' ∉ (s.push isFile raw slash).path := by
  have ending : '?' ∉ (if slash then ['/'] else []) := by cases slash <;> decide
  have start : '?' ∉ (if isFile && !raw.isEmpty && isNormalDriveLetter (s.path.drop 1)
      then s.path ++ ['/'] else s.path) := by
    split
    · simpa using clean
    · exact clean
  have segment := question_not_mem_percentEncode raw
  unfold State.push
  dsimp only
  generalize (if isFile && !raw.isEmpty && isNormalDriveLetter (s.path.drop 1)
      then s.path ++ ['/'] else s.path) = path at start
  split
  · exact fun mem => start ((parent_isPrefix path).subset mem)
  · split
    · split
      · exact start
      · simpa using start
    · split
      · simp only [List.mem_append, not_or]
        exact ⟨⟨⟨start, fun mem => segment ((List.take_sublist 1 _).subset mem)⟩, by decide⟩, ending⟩
      · simp only [List.mem_append, not_or]
        exact ⟨⟨start, segment⟩, ending⟩

/-- A path that starts with a slash goes on doing so. -/
theorem IsRooted.push {isFile slash : Bool} {s : State} (h : IsRooted s.path) (raw : List Char) :
    IsRooted (s.push isFile raw slash).path := by
  refine ⟨?_, question_not_mem_push raw h.query⟩
  have start : (if isFile && !raw.isEmpty && isNormalDriveLetter (s.path.drop 1)
      then s.path ++ ['/'] else s.path).head? = some '/' := by
    split
    · rw [List.head?_append_of_ne_nil _ h.ne_nil]
      exact h.slash
    · exact h.slash
  unfold State.push
  dsimp only
  generalize (if isFile && !raw.isEmpty && isNormalDriveLetter (s.path.drop 1)
      then s.path ++ ['/'] else s.path) = path at start
  have some : path ≠ [] := by
    rintro rfl
    cases start
  split
  · exact (head?_of_isPrefix (parent_isPrefix path) (parent_ne_nil some)).trans start
  · split
    · split
      · exact start
      · rw [List.head?_append_of_ne_nil path some]
        exact start
    · split <;> simp [List.append_assoc, List.head?_append_of_ne_nil path some, start]

theorem question_not_mem_pushAll {isFile : Bool} {s : State} {segments : List (List Char)}
    (clean : '?' ∉ s.path) : '?' ∉ (s.pushAll isFile segments).path := by
  induction s, segments using State.pushAll.induct isFile with
  | case1 s => exact clean
  | case2 s segment => exact question_not_mem_push segment clean
  | case3 s segment segments _ ih =>
    rw [State.pushAll]
    · exact ih (question_not_mem_push segment clean)
    · assumption

theorem IsRooted.pushAll {isFile : Bool} {s : State} {segments : List (List Char)}
    (h : IsRooted s.path) : IsRooted (s.pushAll isFile segments).path := by
  induction s, segments using State.pushAll.induct isFile with
  | case1 s => exact h
  | case2 s segment => exact h.push segment
  | case3 s segment segments _ ih =>
    rw [State.pushAll]
    · exact ih (h.push segment)
    · assumption

/-- The path of a reference starts with a slash: in a file URL always, and else from a path that
does. -/
theorem isRooted_resolve {isFile : Bool} {start reference : List Char} (clean : '?' ∉ start)
    (rooted : isFile = false → start.head? = some '/') :
    IsRooted (Path.resolve isFile start reference).path := by
  unfold Path.resolve
  dsimp only
  cases isFile with
  | true =>
    have all : '?' ∉ (State.pushAll true ⟨start, false⟩ (segments reference)).path :=
      question_not_mem_pushAll clean
    refine ⟨rfl, ?_⟩
    rw [if_pos rfl, List.mem_cons, not_or]
    exact ⟨by decide, fun mem => all ((List.dropWhile_sublist _).subset mem)⟩
  | false =>
    have start : IsRooted (State.mk start false).path := ⟨rooted rfl, clean⟩
    exact start.pushAll

end Url.Path

/-! ## Specifiers -/

namespace Specifier

/-- The written form of a specifier. -/
structure IsWritten (s : Specifier) : Prop where
  authority : s.authority.IsWritten
  path : Path.IsRooted s.path

theorem isWritten_noAuthority : noAuthority.IsWritten :=
  ⟨by decide, .inl rfl, by decide, by decide, fun mem => by cases mem⟩

theorem isWritten_withReference {scheme : Scheme} {authority : Authority}
    {start reference : List Char} (written : authority.IsWritten) (clean : '?' ∉ start)
    (rooted : (scheme == .file) = false → start.head? = some '/') :
    (withReference scheme authority start reference).IsWritten :=
  ⟨written, Path.isRooted_resolve clean rooted⟩

theorem isWritten_readRemote {scheme : Scheme} {text : List Char} {s : Specifier}
    (read : readRemote scheme text = .ok s) : s.IsWritten := by
  unfold readRemote at read
  cases here : Authority.read scheme.port text with
  | error e =>
    rw [here] at read
    cases read
  | ok pair =>
    rw [here] at read
    cases read
    exact isWritten_withReference (Authority.isWritten_of_read here) (by decide) fun _ => rfl

theorem isWritten_readFileHost {text : List Char} {s : Specifier}
    (read : readFileHost text = .ok s) : s.IsWritten := by
  have local' (rest : List Char) : (withReference .file noAuthority ['/'] rest).IsWritten :=
    isWritten_withReference isWritten_noAuthority (by decide) fun _ => rfl
  unfold readFileHost at read
  dsimp only at read
  split at read
  · cases read
    exact local' _
  · generalize text.takeWhile _ = name at read
    cases here : Host.read name with
    | error e =>
      rw [here] at read
      cases read
    | ok host =>
      simp only [here, bind, Except.bind] at read
      split at read
      · cases read
        exact local' _
      · cases read
        refine ⟨?_, Path.isRooted_resolve (by decide) fun same => by cases same⟩
        dsimp only
        split
        · exact isWritten_noAuthority
        · exact ⟨List.not_mem_nil, .inl rfl, Host.isWritten_of_read here⟩

theorem fileRoot_spec {reference : List Char} {base : Option Specifier}
    (written : ∀ b, base = some b → b.IsWritten) :
    (fileRoot reference base).1.IsWritten ∧ '?' ∉ (fileRoot reference base).2 := by
  unfold fileRoot
  split
  case h_1 => exact ⟨isWritten_noAuthority, List.not_mem_nil⟩
  case h_2 base =>
    dsimp only
    split
    · exact ⟨isWritten_noAuthority, List.not_mem_nil⟩
    · split
      · refine ⟨isWritten_noAuthority, ?_⟩
        rw [List.mem_cons, not_or]
        refine ⟨by decide, fun mem => (written base rfl).path.query ?_⟩
        exact (List.drop_sublist 1 _).subset ((List.takeWhile_sublist _).subset mem)
      · exact ⟨(written base rfl).authority, List.not_mem_nil⟩

theorem isWritten_readFile {base : Option Specifier} {text : List Char} {s : Specifier}
    (written : ∀ b, base = some b → b.IsWritten) (read : readFile base text = .ok s) :
    s.IsWritten := by
  have local' (rest : List Char) : (withReference .file noAuthority ['/'] rest).IsWritten :=
    isWritten_withReference isWritten_noAuthority (by decide) fun same => by cases same
  unfold readFile at read
  dsimp only at read
  split at read
  · exact isWritten_readFileHost read
  · split at read
    · cases read
      have root := @fileRoot_spec (dropSeparator text) base written
      exact isWritten_withReference root.1 root.2 fun same => by cases same
    · split at read
      case h_1 =>
        cases read
        exact local' _
      case h_2 base =>
        have base := written base rfl
        split at read
        · cases read
          exact base
        · split at read
          · cases read
            exact ⟨base.authority, base.path⟩
          · split at read
            · cases read
              exact local' _
            · cases read
              exact isWritten_withReference base.authority
                (Path.isRooted_base base.path true).query fun same => by cases same

theorem isWritten_readRelative {base : Specifier} {text : List Char} {s : Specifier}
    (written : base.IsWritten) (read : readRelative base text = .ok s) : s.IsWritten := by
  unfold readRelative at read
  split at read
  · cases read
    exact written
  · split at read
    · cases read
      exact ⟨written.authority, written.path⟩
    · split at read
      · exact isWritten_readRemote read
      · dsimp only at read
        split at read
        · cases read
          have start := Path.isRooted_base written.path false
          exact isWritten_withReference written.authority start.query fun _ => start.slash
        · cases read
          exact isWritten_withReference written.authority (by decide) fun _ => rfl
        · exact isWritten_readRemote read

theorem isWritten_read {base : Option Specifier} {reference : String} {s : Specifier}
    (written : ∀ b, base = some b → b.IsWritten) (read : read base reference = .ok s) :
    s.IsWritten := by
  unfold Specifier.read at read
  dsimp only at read
  split at read
  · split at read
    · cases read
    · refine isWritten_readFile (fun b same => ?_) read
      exact written b (Option.filter_eq_some_iff.mp same).1
    · split at read
      · split at read
        · exact isWritten_readRelative (written _ rfl) read
        · exact isWritten_readRemote read
      · exact isWritten_readRemote read
  · split at read
    · cases read
    · split at read
      · exact isWritten_readFile written read
      · exact isWritten_readRelative (written _ rfl) read

/-- What is parsed as a specifier is in the written form of one. -/
theorem isWritten_of_parse {value : String} {s : Specifier} (parsed : parse value = .ok s) :
    s.IsWritten := by
  unfold parse at parsed
  split at parsed
  case h_1 here =>
    cases parsed
    refine @isWritten_read none _ _ ?_ here
    exact fun _ same => by cases same
  case h_2 => cases parsed

/-- What a reference in a module leads to is in the written form of a specifier. -/
theorem isWritten_of_resolve {reference : String} {base s : Specifier} (written : base.IsWritten)
    (resolved : resolve reference base = .ok s) : s.IsWritten := by
  unfold resolve at resolved
  dsimp only at resolved
  split at resolved
  · cases resolved
  · split at resolved
    case h_1 here =>
      cases resolved
      refine @isWritten_read (some base) _ _ ?_ here
      rintro b ⟨⟩
      exact written
    case h_2 => cases resolved

/-- The specifier of a path is in the written form of one. -/
theorem isWritten_of_ofPath {path : String} {s : Specifier} (made : ofPath path = .ok s) :
    s.IsWritten := by
  unfold ofPath at made
  dsimp only at made
  split at made
  case h_1 here =>
    cases made
    refine @isWritten_read none _ _ ?_ here
    exact fun _ same => by cases same
  case h_2 => cases made

/-! ## Texts -/

theorem not_mem_authority {a : Authority} (written : a.IsWritten) : '/' ∉ a.text := by
  rw [Authority.text_eq, List.mem_append, not_or]
  exact ⟨written.slash, Authority.not_mem_hostText written.host.slash rfl (by decide) _⟩

/-- The path and the query of a specifier as they are written. -/
def pathAndQuery (path : List Char) : Option (List Char) → List Char
  | none => path
  | some query => path ++ '?' :: query

theorem chars_eq (s : Specifier) : s.chars = s.scheme.name.toList ++
    ':' :: ("//".toList ++ (s.authority.text ++ pathAndQuery s.path s.query)) := by
  unfold chars pathAndQuery
  cases s.query <;> simp

theorem pathAndQuery_inj {path path' : List Char} {query query' : Option (List Char)}
    (h : '?' ∉ path) (h' : '?' ∉ path') (same : pathAndQuery path query = pathAndQuery path' query') :
    path = path' ∧ query = query' := by
  cases query with
  | none =>
    cases query' with
    | none => exact ⟨same, rfl⟩
    | some query' =>
      refine absurd ?_ h
      rw [show path = _ from same, pathAndQuery]
      simp
  | some query =>
    cases query' with
    | none =>
      refine absurd ?_ h'
      rw [show path' = _ from same.symm, pathAndQuery]
      simp
    | some query' =>
      obtain ⟨rfl, rfl⟩ := append_cons_inj h h' same
      exact ⟨rfl, rfl⟩

/-- Specifiers in their written form are told apart by their texts. -/
theorem text_injective {s t : Specifier} (hs : s.IsWritten) (ht : t.IsWritten)
    (same : s.text = t.text) : s = t := by
  have same : s.chars = t.chars := by
    rw [← String.toList_ofList (l := s.chars), ← String.toList_ofList (l := t.chars)]
    exact congrArg String.toList same
  have colon (scheme : Scheme) : ':' ∉ scheme.name.toList := by cases scheme <;> decide
  rw [chars_eq, chars_eq] at same
  obtain ⟨schemes, rest⟩ := append_cons_inj (colon _) (colon _) same
  have rest := List.append_cancel_left rest
  obtain ⟨path, path'⟩ := And.intro hs.path ht.path
  obtain ⟨scheme, authority, p, query⟩ := s
  obtain ⟨scheme', authority', p', query'⟩ := t
  obtain ⟨tail, rfl⟩ : ∃ tail, p = '/' :: tail := List.head?_eq_some_iff.mp path.slash
  obtain ⟨tail', rfl⟩ : ∃ tail, p' = '/' :: tail := List.head?_eq_some_iff.mp path'.slash
  have front (tail : List Char) (query : Option (List Char)) :
      pathAndQuery ('/' :: tail) query = '/' :: pathAndQuery tail query := by
    cases query <;> rfl
  dsimp only at rest
  rw [front, front] at rest
  obtain ⟨authorities, paths⟩ := append_cons_inj (not_mem_authority hs.authority)
    (not_mem_authority ht.authority) rest
  obtain ⟨rfl, rfl⟩ := pathAndQuery_inj (fun mem => path.query (List.mem_cons_of_mem _ mem))
    (fun mem => path'.query (List.mem_cons_of_mem _ mem)) paths
  obtain rfl := Authority.text_injective hs.authority ht.authority authorities
  have names : ∀ a b : Scheme, a.name.toList = b.name.toList → a = b := by
    intro a b
    cases a <;> cases b <;> decide
  obtain rfl : scheme = scheme' := names _ _ schemes
  rfl

end Specifier

end ModuleLinker
