import ModuleLinker.Proofs.Specifier.Written
import ModuleLinker.Proofs.Text.Blank
import ModuleLinker.Proofs.Url.Authority
import ModuleLinker.Proofs.Url.Path

/-!
# Specifiers are read back

A specifier that has been parsed, or that a reference leads to, is canonical. Its text is parsed as
this specifier, and so is it as a reference in whatever module; only a drive letter behind a host
takes the place of the host (`Specifier.Obtained.read_back`).
-/

set_option autoImplicit false

namespace ModuleLinker

open Text Url

namespace Specifier

/-- An authority of a file as reading gives it: none, or a host that is not this machine. -/
def IsFileAuthority (a : Authority) : Prop :=
  a = noAuthority ∨ ∃ host, a = ⟨[], host, none⟩ ∧ Host.read host = .ok host ∧
    host ≠ "localhost".toList

/-- A specifier as reading gives it. -/
structure IsCanonical (s : Specifier) : Prop where
  file : s.scheme = .file → IsFileAuthority s.authority
  remote : s.scheme ≠ .file → s.authority.IsCanonical s.scheme.port
  rooted : s.path.head? = some '/'
  path : Path.IsClean s.path
  first : s.scheme = .file → (s.path.drop 1).head? ≠ some '/'
  query : ∀ query, s.query = some query → ∀ c ∈ query, isPlainQuery c = true

theorem isFileAuthority_noAuthority : IsFileAuthority noAuthority := .inl rfl

/-- What an authority of a scheme is canonical for. -/
def IsAuthorityOf (scheme : Scheme) (a : Authority) : Prop :=
  (scheme = .file → IsFileAuthority a) ∧ (scheme ≠ .file → a.IsCanonical scheme.port)

theorem isPlainQuery_of_queryOf {text query : List Char} (found : queryOf text = some query) :
    ∀ c ∈ query, isPlainQuery c = true := by
  unfold queryOf at found
  split at found
  · cases found
  · cases found
    exact fun c mem => plain_of_mem_percentEncode (by decide) mem

theorem isOpen_root : Path.IsOpen ['/'] := Path.isClean_nil.isOpen_append

/-- A specifier with a reference on top of an open path is canonical. -/
theorem isCanonical_withReference {scheme : Scheme} {authority : Authority}
    {start : List Char} (reference : List Char) (written : IsAuthorityOf scheme authority)
    (isOpen : Path.IsOpen start) (rooted : scheme ≠ .file → start.head? = some '/') :
    (withReference scheme authority start reference).IsCanonical where
  file := written.1
  remote := written.2
  rooted := by
    have query : '?' ∉ start := fun mem => by cases isOpen.clean.plain '?' mem
    refine (Path.isRooted_resolve query fun remote => rooted ?_).slash
    rintro rfl
    cases remote
  path := Path.isClean_resolve isOpen _
  first := by
    rintro (rfl : scheme = .file)
    exact Path.head?_drop_resolve _ _
  query _ found := isPlainQuery_of_queryOf found

theorem isCanonical_readRemote {scheme : Scheme} {text : List Char} {s : Specifier}
    (remote : scheme ≠ .file) (read : readRemote scheme text = .ok s) : s.IsCanonical := by
  unfold readRemote at read
  simp only [bind, Except.bind] at read
  cases here : Authority.read scheme.port text with
  | error e =>
    rw [here] at read
    cases read
  | ok pair =>
    rw [here] at read
    cases read
    have authority := Authority.isCanonical_of_read here
    exact isCanonical_withReference _ ⟨fun same => absurd same remote, fun _ => authority⟩
      isOpen_root fun _ => rfl

theorem isAuthorityOf_file {a : Authority} (h : IsFileAuthority a) : IsAuthorityOf .file a :=
  ⟨fun _ => h, fun other => absurd rfl other⟩

/-- A reference to a file without a host. -/
theorem isCanonical_noHost (reference : List Char) :
    (withReference .file noAuthority ['/'] reference).IsCanonical :=
  isCanonical_withReference reference (isAuthorityOf_file isFileAuthority_noAuthority) isOpen_root
    fun other => absurd rfl other

theorem isCanonical_readFileHost {text : List Char} {s : Specifier}
    (read : readFileHost text = .ok s) : s.IsCanonical := by
  unfold readFileHost at read
  dsimp only at read
  split at read
  · cases read
    exact isCanonical_noHost _
  · generalize text.takeWhile _ = name at read
    cases here : Host.read name with
    | error e =>
      rw [here] at read
      cases read
    | ok host =>
      simp only [here, bind, Except.bind] at read
      split at read
      · cases read
        exact isCanonical_noHost _
      case isFalse other =>
        cases read
        have behind : (withReference .file
            (if (Path.resolve true ['/'] (beforeQuery (dropSeparator
              (text.drop name.length)))).drive then noAuthority else ⟨[], host, none⟩) ['/']
            (dropSeparator (text.drop name.length))).IsCanonical := by
          refine isCanonical_withReference _ (isAuthorityOf_file ?_) isOpen_root
            fun other => absurd rfl other
          split
          · exact isFileAuthority_noAuthority
          · exact .inr ⟨host, rfl, Host.read_of_read here, other⟩
        exact ⟨behind.file, behind.remote, behind.rooted, behind.path, behind.first,
          fun _ found => isPlainQuery_of_queryOf found⟩

theorem IsCanonical.slash_mem {s : Specifier} (h : s.IsCanonical) : '/' ∈ s.path :=
  List.mem_of_mem_head? h.rooted

/-- What a path-absolute reference to a file keeps is canonical. -/
theorem fileRoot_canonical {reference : List Char} {base : Option Specifier}
    (canonical : ∀ b, base = some b → b.IsCanonical ∧ b.scheme = .file) :
    IsFileAuthority (fileRoot reference base).1 ∧ Path.IsOpen (fileRoot reference base).2 := by
  unfold fileRoot
  split
  case h_1 => exact ⟨isFileAuthority_noAuthority, Path.isOpen_nil⟩
  case h_2 base =>
    obtain ⟨canonical, file⟩ := canonical base rfl
    dsimp only
    split
    · exact ⟨isFileAuthority_noAuthority, Path.isOpen_nil⟩
    · split
      case isFalse => exact ⟨canonical.file file, Path.isOpen_nil⟩
      case isTrue drive =>
        obtain ⟨letter, two, alpha⟩ := Path.exists_of_isNormalDriveLetter drive
        rw [two]
        refine ⟨isFileAuthority_noAuthority, Path.isOpen_drive alpha (canonical.path.plain _ ?_)⟩
        have mem : letter ∈ (base.path.drop 1).takeWhile (· != '/') := by
          rw [two]
          exact List.mem_cons_self
        exact (List.drop_sublist 1 _).subset ((List.takeWhile_sublist _).subset mem)

theorem isCanonical_readFile {base : Option Specifier} {text : List Char} {s : Specifier}
    (canonical : ∀ b, base = some b → b.IsCanonical ∧ b.scheme = .file)
    (read : readFile base text = .ok s) : s.IsCanonical := by
  unfold readFile at read
  dsimp only at read
  split at read
  · exact isCanonical_readFileHost read
  · split at read
    · cases read
      have root := @fileRoot_canonical (dropSeparator text) base canonical
      exact isCanonical_withReference _ (isAuthorityOf_file root.1) root.2
        fun other => absurd rfl other
    · split at read
      case h_1 =>
        cases read
        exact isCanonical_noHost _
      case h_2 base =>
        obtain ⟨base, file⟩ := canonical base rfl
        split at read
        · cases read
          exact base
        · split at read
          · cases read
            exact ⟨base.file, base.remote, base.rooted, base.path, base.first,
              fun _ found => isPlainQuery_of_queryOf found⟩
          · split at read
            · cases read
              exact isCanonical_noHost _
            · cases read
              exact isCanonical_withReference _ (isAuthorityOf_file (base.file file))
                (Path.isOpen_base base.path base.slash_mem true) fun other => absurd rfl other

theorem isCanonical_readRelative {base : Specifier} {text : List Char} {s : Specifier}
    (canonical : base.IsCanonical) (remote : base.scheme ≠ .file)
    (read : readRelative base text = .ok s) : s.IsCanonical := by
  have authority : IsAuthorityOf base.scheme base.authority :=
    ⟨canonical.file, canonical.remote⟩
  unfold readRelative at read
  split at read
  · cases read
    exact canonical
  · split at read
    · cases read
      exact ⟨canonical.file, canonical.remote, canonical.rooted, canonical.path, canonical.first,
        fun _ found => isPlainQuery_of_queryOf found⟩
    · split at read
      · exact isCanonical_readRemote remote read
      · dsimp only at read
        split at read
        · cases read
          have start := (Path.isRooted_base ⟨canonical.rooted, fun mem => by
            cases canonical.path.plain '?' mem⟩ false).slash
          exact isCanonical_withReference _ authority
            (Path.isOpen_base canonical.path canonical.slash_mem false) fun _ => start
        · cases read
          exact isCanonical_withReference _ authority isOpen_root fun _ => rfl
        · exact isCanonical_readRemote remote read

theorem isCanonical_read {base : Option Specifier} {reference : String} {s : Specifier}
    (canonical : ∀ b, base = some b → b.IsCanonical) (read : read base reference = .ok s) :
    s.IsCanonical := by
  unfold Specifier.read at read
  dsimp only at read
  split at read
  · split at read
    · cases read
    · refine isCanonical_readFile (fun b same => ?_) read
      obtain ⟨some, file⟩ := Option.filter_eq_some_iff.mp same
      exact ⟨canonical b some, by simpa using file⟩
    · rename_i scheme remote found
      split at read
      · split at read
        case isTrue same =>
          exact isCanonical_readRelative (canonical _ rfl) (same.1 ▸ remote) read
        · exact isCanonical_readRemote remote read
      · exact isCanonical_readRemote remote read
  · split at read
    · cases read
    · split at read
      case isTrue file =>
        refine isCanonical_readFile (fun b same => ?_) read
        cases same
        exact ⟨canonical _ rfl, file⟩
      case isFalse remote => exact isCanonical_readRelative (canonical _ rfl) remote read

/-! ## The text of a canonical specifier -/

theorem isBlank_of_isVisible {c : Char} (visible : isVisible c = true) : isBlank c = false := by
  unfold isVisible at visible
  simp only [Bool.and_eq_true, decide_eq_true_eq] at visible
  unfold isBlank
  simp
  omega

section

variable {s : Specifier}

/-- The characters of an authority are visible, and none of them ends it. -/
theorem IsCanonical.visible_authority (h : s.IsCanonical) {c : Char}
    (mem : c ∈ s.authority.text) : isVisible c = true ∧ c ∉ "#/?\\".toList := by
  by_cases file : s.scheme = .file
  · rcases h.file file with none | ⟨host, same, read, -⟩
    · rw [none] at mem
      cases mem
    · have canonical : Authority.IsCanonical 0 s.authority := by
        rw [same]
        exact ⟨.inl rfl, read, fun _ none => by cases none⟩
      exact canonical.visible_text mem
  · exact (h.remote file).visible_text mem

/-- The characters of a specifier are visible, and it has no fragment. -/
theorem IsCanonical.visible (h : s.IsCanonical) {c : Char} (mem : c ∈ s.chars) :
    isVisible c = true ∧ c ≠ '#' := by
  have scheme : ∀ scheme : Scheme, (scheme.name.toList ++ "://".toList).all
      (fun c => isVisible c && c != '#') = true := by
    intro scheme
    cases scheme <;> decide
  have path (c : Char) (plain : Path.isPlain c = true) : isVisible c = true ∧ c ≠ '#' := by
    unfold Path.isPlain at plain
    rw [Bool.and_eq_true] at plain
    refine ⟨plain.1, ?_⟩
    rintro rfl
    simp at plain
  have query (c : Char) (plain : isPlainQuery c = true) : isVisible c = true ∧ c ≠ '#' := by
    unfold isPlainQuery at plain
    rw [Bool.and_eq_true] at plain
    refine ⟨plain.1, ?_⟩
    rintro rfl
    simp at plain
  unfold chars at mem
  rw [List.mem_append, List.mem_append, List.mem_append] at mem
  rcases mem with ((mem | mem) | mem) | mem
  · simpa using List.all_eq_true.mp (scheme s.scheme) c mem
  · have spec := h.visible_authority mem
    refine ⟨spec.1, ?_⟩
    rintro rfl
    exact spec.2 (by decide)
  · exact path c (h.path.plain c mem)
  · split at mem
    case h_1 => cases mem
    case h_2 query' some =>
      rcases List.mem_cons.mp mem with rfl | mem
      · decide
      · exact query c (h.query query' some c mem)

/-- Nothing in the text of a specifier is passed over. -/
theorem IsCanonical.cleaned_text (h : s.IsCanonical) : cleaned s.text = s.chars := by
  have kept : ∀ c ∈ s.chars, decide (c.toNat ≤ 0x20) = false := by
    intro c mem
    have visible := (h.visible mem).1
    simp only [isVisible, Bool.and_eq_true, decide_eq_true_eq] at visible
    rw [decide_eq_false_iff_not]
    omega
  rw [cleaned, text, String.toList_ofList, trimWhere_of_forall kept, List.filter_eq_self]
  intro c mem
  have above := kept c mem
  rw [Bool.not_eq_true', ← Bool.not_eq_true]
  intro control
  simp only [Bool.or_eq_true, beq_iff_eq] at control
  rcases control with (rfl | rfl) | rfl <;> cases above

theorem IsCanonical.trim_text (h : s.IsCanonical) : trim s.text = s.text := by
  have kept : ∀ c ∈ s.chars, isBlank c = false := fun c mem =>
    isBlank_of_isVisible (h.visible mem).1
  rw [trim, text, String.toList_ofList, trimWhere_of_forall kept]

/-- The scheme of a specifier is told apart from the rest of its text. -/
theorem splitScheme?_chars (s : Specifier) : splitScheme? s.chars = some (s.scheme.name.toList,
    "//".toList ++ (s.authority.text ++ pathAndQuery s.path s.query)) := by
  rw [chars_eq]
  generalize "//".toList ++ (s.authority.text ++ pathAndQuery s.path s.query) = rest
  cases s.scheme <;> rfl

theorem ofName?_name (scheme : Scheme) :
    Scheme.ofName? (String.ofList scheme.name.toList) = some scheme := by
  cases scheme <;> rfl

/-! ## Reading the text of a canonical specifier -/

theorem pathAndQuery_cons (c : Char) (path : List Char) (query : Option (List Char)) :
    pathAndQuery (c :: path) query = c :: pathAndQuery path query := by
  cases query <;> rfl

theorem dropSeparator_slash (cs : List Char) : dropSeparator ('/' :: cs) = cs := rfl

theorem not_question {path : List Char} (none : '?' ∉ path) : ∀ c ∈ path, (c != '?') = true := by
  intro c mem
  rw [bne_iff_ne]
  rintro rfl
  exact none mem

/-- A path is told apart from the query behind it. -/
theorem beforeQuery_pathAndQuery {path : List Char} (none : '?' ∉ path)
    (query : Option (List Char)) : beforeQuery (pathAndQuery path query) = path := by
  cases query with
  | none => exact List.takeWhile_eq_self_iff.mpr (not_question none)
  | some query =>
    rw [beforeQuery, pathAndQuery, List.takeWhile_append_of_pos (not_question none)]
    exact List.append_nil path

/-- A query in its written form is read back. -/
theorem queryOf_pathAndQuery {path : List Char} (none : '?' ∉ path) {query : Option (List Char)}
    (plain : ∀ text, query = some text → ∀ c ∈ text, isPlainQuery c = true) :
    queryOf (pathAndQuery path query) = query := by
  unfold queryOf
  cases query with
  | none =>
    rw [pathAndQuery, List.dropWhile_eq_nil_iff.mpr (not_question none)]
  | some query =>
    have behind : (pathAndQuery path (some query)).dropWhile (· != '?') = '?' :: query := by
      rw [pathAndQuery, List.dropWhile_append_of_pos (not_question none)]
      rfl
    rw [behind]
    dsimp only
    rw [percentEncode_of_forall (plain query rfl)]

theorem withReference_pathAndQuery {scheme : Scheme} {authority : Authority} {start path : List Char}
    {query : Option (List Char)} (none : '?' ∉ path)
    (plain : ∀ text, query = some text → ∀ c ∈ text, isPlainQuery c = true) :
    withReference scheme authority start (pathAndQuery path query) =
      ⟨scheme, authority, (Path.resolve (scheme == .file) start path).path, query⟩ := by
  rw [withReference, beforeQuery_pathAndQuery none, queryOf_pathAndQuery none plain]

/-- Whether the path of a file starts with a drive letter although a host stands in front of it. -/
def hasHostBeforeDrive (s : Specifier) : Bool :=
  s.scheme == .file && !s.authority.host.isEmpty &&
    Path.isDriveLetter ((s.path.drop 1).takeWhile (· != '/'))

/-- The specifier that the text of a specifier is read as: a drive letter at the start of the path of
a file takes the place of a host in front of it. -/
def settled (s : Specifier) : Specifier :=
  if s.hasHostBeforeDrive then
    { s with authority := noAuthority, path := Path.withColon s.path }
  else s

theorem IsCanonical.question_not_mem (h : s.IsCanonical) : '?' ∉ s.path :=
  fun mem => by cases h.path.plain '?' mem

/-- The text of a module on a server is read back. -/
theorem IsCanonical.readRemote_text (h : s.IsCanonical) (remote : s.scheme ≠ .file) :
    readRemote s.scheme (s.authority.text ++ pathAndQuery s.path s.query) = .ok s := by
  have question := h.question_not_mem
  have path := h.path
  obtain ⟨tail, start⟩ : ∃ tail, s.path = '/' :: tail := List.head?_eq_some_iff.mp h.rooted
  rw [start] at question path
  rw [List.mem_cons, not_or] at question
  have server : (s.scheme == .file) = false := by simpa using remote
  have read := (h.remote remote).read_text (pathAndQuery tail s.query)
  have built := Path.resolve_clean (Path.isClean_cons.mp path)
  unfold readRemote
  rw [start, pathAndQuery_cons]
  simp only [read, bind, Except.bind]
  rw [dropSeparator_slash, withReference_pathAndQuery question.2 h.query, server, built,
    ← start]

/-- The text of a file without a host is read back. -/
theorem IsCanonical.readFileHost_noHost (h : s.IsCanonical) (file : s.scheme = .file)
    (none : s.authority = noAuthority) :
    readFileHost (pathAndQuery s.path s.query) = .ok s.settled := by
  have question := h.question_not_mem
  have path := h.path
  have first := h.first file
  obtain ⟨tail, start⟩ : ∃ tail, s.path = '/' :: tail := List.head?_eq_some_iff.mp h.rooted
  have same : s.settled = s := by
    rw [settled, hasHostBeforeDrive, none]
    simp [noAuthority]
  have noName : (pathAndQuery s.path s.query).takeWhile (fun c => !(Path.isSeparator c || c == '?')) =
      [] := by
    rw [start, pathAndQuery_cons]
    rfl
  rw [start] at path first
  have built := Path.resolve_clean_file (Path.isClean_cons.mp path) first
  unfold readFileHost
  rw [noName]
  dsimp only
  rw [if_pos (by rfl), withReference_pathAndQuery question h.query, same, beq_self_eq_true, start, built,
    ← start, ← none, ← file]

/-- The text of a file behind a host is read back, but a drive letter takes the place of the host. -/
theorem IsCanonical.readFileHost_host (h : s.IsCanonical) (file : s.scheme = .file)
    {host : List Char} (some : s.authority = ⟨[], host, none⟩) (read : Host.read host = .ok host)
    (other : host ≠ "localhost".toList) :
    readFileHost (host ++ pathAndQuery s.path s.query) = .ok s.settled := by
  have question := h.question_not_mem
  have path := h.path
  have first := h.first file
  have shape := Host.shape_of_read read
  obtain ⟨tail, start⟩ : ∃ tail, s.path = '/' :: tail := List.head?_eq_some_iff.mp h.rooted
  have name : (host ++ pathAndQuery s.path s.query).takeWhile
      (fun c => !(Path.isSeparator c || c == '?')) = host := by
    rw [start, pathAndQuery_cons, List.takeWhile_append_of_pos]
    · exact List.append_nil host
    · intro c mem
      have ends := (shape.visible mem).2
      simp at ends
      simp [Path.isSeparator, ends]
  have filled : host.isEmpty = false := by
    rw [← Bool.not_eq_true, List.isEmpty_iff]
    exact shape.ne_nil
  have target : s.settled = if Path.isDriveLetter (tail.takeWhile (· != '/')) then
      ⟨.file, noAuthority, Path.withColon ('/' :: tail), s.query⟩ else s := by
    rw [settled, hasHostBeforeDrive, file, some, start, filled]
    rfl
  have whole : s = ⟨.file, ⟨[], host, none⟩, '/' :: tail, s.query⟩ := by
    rw [← file, ← some, ← start]
  have query := queryOf_pathAndQuery question h.query
  rw [start] at path first question query
  rw [List.mem_cons, not_or] at question
  have built := Path.resolve_clean_host (Path.isClean_cons.mp path) first
  unfold readFileHost
  rw [name]
  simp only [filled, shape.not_isDriveLetter, Bool.or_self, Bool.false_eq_true, if_false, read, bind,
    Except.bind]
  rw [if_neg other, List.drop_left, start, query, pathAndQuery_cons, dropSeparator_slash,
    beforeQuery_pathAndQuery question.2, built, target]
  split
  case isTrue => rfl
  case isFalse =>
    rw [if_neg Bool.false_ne_true]
    exact congrArg _ whole.symm

/-- The text of a canonical specifier is read back, whatever module it is read in. -/
theorem IsCanonical.read_text (h : s.IsCanonical) (base : Option Specifier) :
    read base s.text = .ok s.settled := by
  have noFragment : '#' ∉ s.chars := fun mem => (h.visible mem).2 rfl
  have rest : beforeFragment ("//".toList ++ (s.authority.text ++ pathAndQuery s.path s.query)) =
      '/' :: '/' :: (s.authority.text ++ pathAndQuery s.path s.query) := by
    refine List.takeWhile_eq_self_iff.mpr fun c mem => ?_
    rw [bne_iff_ne]
    rintro rfl
    apply noFragment
    rw [chars_eq]
    exact List.mem_append_right _ (List.mem_cons_of_mem ':' mem)
  unfold Specifier.read
  rw [h.cleaned_text]
  dsimp only
  rw [splitScheme?_chars]
  dsimp only
  rw [ofName?_name, rest]
  by_cases file : s.scheme = .file
  · have absolute (b : Option Specifier) (text : List Char) :
        readFile b ('/' :: '/' :: text) = readFileHost text := rfl
    rw [file]
    dsimp only
    rw [absolute]
    rcases h.file file with none | ⟨host, some, read, other⟩
    · rw [none]
      exact h.readFileHost_noHost file none
    · have text : s.authority.text = host := by
        rw [some]
        exact List.append_nil host
      rw [text]
      exact h.readFileHost_host file some read other
  · have server : s.settled = s := by
      rw [settled, hasHostBeforeDrive, beq_eq_false_iff_ne.mpr file]
      rfl
    have behind : ('/' :: '/' :: (s.authority.text ++ pathAndQuery s.path s.query)).dropWhile
        Path.isSeparator = s.authority.text ++ pathAndQuery s.path s.query := by
      have some : s.authority.text ≠ [] := by
        intro none
        rw [Authority.text, List.append_eq_nil_iff, List.append_eq_nil_iff] at none
        exact (h.remote file).shape.ne_nil none.1.2
      obtain ⟨c, more, start⟩ := List.exists_cons_of_ne_nil some
      have first := (h.visible_authority (start ▸ List.mem_cons_self)).2
      have noSeparator : Path.isSeparator c = false := by
        simp at first
        simp [Path.isSeparator, first]
      rw [start, List.cons_append, List.dropWhile_cons_of_pos (by rfl),
        List.dropWhile_cons_of_pos (by rfl), List.dropWhile_cons_of_neg (by simpa using noSeparator)]
    have far : ('/' :: '/' :: (s.authority.text ++ pathAndQuery s.path s.query)).length -
        (s.authority.text ++ pathAndQuery s.path s.query).length = 2 := by
      rw [List.length_cons, List.length_cons]
      omega
    have remote := h.readRemote_text file
    rw [behind, far, server]
    split
    case h_1 none => cases none
    case h_2 same => exact absurd (Option.some.inj same) file
    case h_3 scheme _ same =>
      obtain rfl := Option.some.inj same
      cases base with
      | none => exact remote
      | some base =>
        dsimp only
        rw [if_neg fun near => absurd near.2 (by decide)]
        exact remote

end

/-! ## Specifiers that have been obtained -/

/-- The specifiers that parsing a text and resolving a reference in such a module lead to. -/
inductive Obtained : Specifier → Prop
  /-- A text is parsed. -/
  | parsed {value : String} {s : Specifier} : parse value = .ok s → Obtained s
  /-- A reference in a module is resolved. -/
  | resolved {reference : String} {base s : Specifier} :
    Obtained base → resolve reference base = .ok s → Obtained s

/-- A specifier that has been obtained is canonical. -/
theorem Obtained.isCanonical {s : Specifier} (obtained : Obtained s) : s.IsCanonical := by
  induction obtained with
  | @parsed value s parsed =>
    unfold parse at parsed
    split at parsed
    case h_2 => cases parsed
    case h_1 here =>
      cases parsed
      refine @isCanonical_read none _ _ ?_ here
      exact fun _ same => by cases same
  | @resolved reference base s _ resolved canonical =>
    unfold resolve at resolved
    dsimp only at resolved
    split at resolved
    · cases resolved
    · split at resolved
      case h_2 => cases resolved
      case h_1 here =>
        cases resolved
        refine @isCanonical_read (some base) _ _ ?_ here
        rintro b ⟨⟩
        exact canonical

theorem IsCanonical.parse_text {s : Specifier} (h : s.IsCanonical) :
    parse s.text = .ok s.settled := by
  rw [parse, h.read_text]

theorem IsCanonical.resolve_text {s : Specifier} (h : s.IsCanonical) (base : Specifier) :
    resolve s.text base = .ok s.settled := by
  have filled : s.text.isEmpty = false := by
    rw [← Bool.not_eq_true, String.isEmpty_iff]
    intro none
    have colon : ':' ∈ s.text.toList := by
      rw [text, String.toList_ofList, chars_eq]
      exact List.mem_append_right _ List.mem_cons_self
    rw [none] at colon
    cases colon
  unfold resolve
  dsimp only
  rw [h.trim_text, filled, if_neg Bool.false_ne_true, h.read_text]

theorem settled_eq_self_iff {s : Specifier} : s.settled = s ↔ s.hasHostBeforeDrive = false := by
  constructor
  · intro same
    rw [← Bool.not_eq_true]
    intro drive
    rw [settled, if_pos drive] at same
    have noHost : s.authority = noAuthority := congrArg Specifier.authority same.symm
    rw [hasHostBeforeDrive, noHost] at drive
    simp [noAuthority] at drive
  · intro none
    rw [settled, none]
    rfl

theorem settled_settled (s : Specifier) : s.settled.settled = s.settled := by
  by_cases drive : s.hasHostBeforeDrive = true
  · rw [settled_eq_self_iff, settled, if_pos drive, hasHostBeforeDrive]
    simp [noAuthority]
  · have same : s.settled = s := settled_eq_self_iff.mpr ((Bool.not_eq_true _).mp drive)
    rw [same, same]

/-- The text of a specifier that has been obtained has no fragment and starts with one of the three
schemes, and a module on a server has a host. Parsed, or resolved in whatever module, the text gives
one and the same specifier: this one, unless it has a host in front of a drive letter, which the drive
letter takes the place of. -/
theorem Obtained.read_back {s : Specifier} (obtained : Obtained s) :
    '#' ∉ s.text.toList ∧
    (∃ name ∈ ["file", "http", "https"], (name ++ "://").toList <+: s.text.toList) ∧
    (s.isRemote = true → s.authority.host ≠ []) ∧
    parse s.text = .ok s.settled ∧
    (∀ base, resolve s.text base = .ok s.settled) ∧
    (s.settled = s ↔ s.hasHostBeforeDrive = false) ∧
    s.settled.settled = s.settled := by
  have canonical := obtained.isCanonical
  have chars : s.text.toList = s.chars := String.toList_ofList
  refine ⟨?_, ⟨s.scheme.name, ?_, ?_⟩, fun remote => ?_, canonical.parse_text, canonical.resolve_text,
    settled_eq_self_iff, settled_settled s⟩
  · rw [chars]
    exact fun mem => (canonical.visible mem).2 rfl
  · cases s.scheme <;> decide
  · rw [chars, Specifier.chars, String.toList_append, List.append_assoc, List.append_assoc]
    exact List.prefix_append _ _
  · have remote : s.scheme ≠ .file := by
      simpa [isRemote, isLocal] using remote
    exact (canonical.remote remote).shape.ne_nil

theorem Obtained.read_back_file :
    Obtained ⟨.file, noAuthority, "/b%20c".toList, some "q%22".toList⟩ ∧
      parse "file:///b%20c?q%22" = .ok ⟨.file, noAuthority, "/b%20c".toList, some "q%22".toList⟩ := by
  have parsed : parse "FILE:\\a/%2e./b c?q\"#f" =
      .ok ⟨.file, noAuthority, "/b%20c".toList, some "q%22".toList⟩ := rfl
  have obtained := Obtained.parsed parsed
  exact ⟨obtained, obtained.read_back.2.2.2.1⟩

/-- A host in front of a drive letter is lost when the text of a specifier is read. -/
theorem host_before_drive_is_lost :
    ∃ s, parse "file://host//C|/x" = .ok s ∧ parse s.text ≠ .ok s := by
  have allowed : "host".toList.all (fun c => !Host.isForbidden c) = true := by decide
  have isName : Host.IsName "host".toList :=
    ⟨fun c mem => by simpa using List.all_eq_true.mp allowed c mem, by decide, by decide⟩
  have host : Host.read "host".toList = .ok "host".toList := by
    rw [isName.read, if_neg (by decide)]
  have name : "host//C|/x".toList.takeWhile (fun c => !(Path.isSeparator c || c == '?')) =
      "host".toList := by decide
  have behind : read none "file://host//C|/x" = readFileHost "host//C|/x".toList := rfl
  have parsed : parse "file://host//C|/x" =
      .ok ⟨.file, ⟨[], "host".toList, none⟩, "/C|/x".toList, none⟩ := by
    rw [parse, behind, readFileHost, name]
    dsimp only
    rw [if_neg (by decide), host]
    rfl
  refine ⟨_, parsed, fun same => ?_⟩
  have settled := (Obtained.parsed parsed).isCanonical.parse_text.symm.trans same
  cases settled_eq_self_iff.mp (Except.ok.inj settled)

end Specifier

end ModuleLinker
