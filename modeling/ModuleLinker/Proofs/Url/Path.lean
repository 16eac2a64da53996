import Mathlib.Data.List.TakeWhile
import ModuleLinker.Proofs.Text.Percent
import ModuleLinker.Url.Path

/-!
# Paths are read back

A path that has been built is clean: what needs an escape has one, and no dot segment is left in it
(`Path.isClean_resolve`). Building the path of a clean reference from the root on gives this path
again, except that a drive letter at its start is written with a colon (`Path.resolve_clean`,
`Path.resolve_clean_file`).
-/

set_option autoImplicit false

namespace ModuleLinker.Url.Path

open Text

/-! ## Segments -/

theorem segments_ne_nil (cs : List Char) : segments cs ≠ [] := by
  cases cs with
  | nil => exact List.cons_ne_nil _ _
  | cons c cs =>
    rw [segments]
    split
    · exact List.cons_ne_nil _ _
    · split <;> exact List.cons_ne_nil _ _

/-- A text without separators is one segment. -/
theorem segments_of_forall {cs : List Char} (none : ∀ c ∈ cs, isSeparator c = false) :
    segments cs = [cs] := by
  induction cs with
  | nil => rfl
  | cons c cs ih =>
    rw [List.forall_mem_cons] at none
    rw [segments, none.1, ih none.2]
    rfl

/-- The segments of two texts with a slash between them are the segments of both. -/
theorem segments_append_cons (a b : List Char) :
    segments (a ++ '/' :: b) = segments a ++ segments b := by
  induction a with
  | nil => rfl
  | cons c a ih =>
    rw [List.cons_append, segments, segments]
    by_cases here : isSeparator c = true
    · rw [if_pos here, if_pos here, ih, List.cons_append]
    · rw [if_neg here, if_neg here, ih]
      cases pieces : segments a with
      | nil => exact absurd pieces (segments_ne_nil a)
      | cons piece pieces => rfl

/-- The characters of a segment are characters of the text, and no separators. -/
theorem mem_segments {cs segment : List Char} (mem : segment ∈ segments cs) {c : Char}
    (inside : c ∈ segment) : c ∈ cs ∧ isSeparator c = false := by
  induction cs generalizing segment with
  | nil =>
    rw [List.mem_singleton.mp mem] at inside
    cases inside
  | cons x cs ih =>
    rw [segments] at mem
    split at mem
    case isTrue =>
      rcases List.mem_cons.mp mem with rfl | mem
      · cases inside
      · exact (ih mem inside).imp_left (List.mem_cons_of_mem x)
    case isFalse other =>
      rw [Bool.not_eq_true] at other
      split at mem
      case h_2 none => exact absurd none (segments_ne_nil cs)
      case h_1 first more here =>
        rw [here] at ih
        rcases List.mem_cons.mp mem with rfl | mem
        · rcases List.mem_cons.mp inside with rfl | inside
          · exact ⟨List.mem_cons_self, other⟩
          · exact (ih List.mem_cons_self inside).imp_left (List.mem_cons_of_mem x)
        · exact (ih (List.mem_cons_of_mem first mem) inside).imp_left (List.mem_cons_of_mem x)

/-- A text without backslashes is its segments with slashes between them. -/
theorem intercalate_segments {cs : List Char} (none : '\\' ∉ cs) :
    ['/'].intercalate (segments cs) = cs := by
  induction cs with
  | nil => rfl
  | cons c cs ih =>
    rw [List.mem_cons, not_or] at none
    have ih := ih none.2
    rw [segments]
    split
    case isTrue here =>
      have slash : c = '/' := by
        simp only [isSeparator, Bool.or_eq_true, beq_iff_eq] at here
        exact here.resolve_right (Ne.symm none.1)
      rw [slash, List.intercalate_cons_of_ne_nil (segments_ne_nil cs), ih]
      rfl
    case isFalse =>
      cases pieces : segments cs with
      | nil => exact absurd pieces (segments_ne_nil cs)
      | cons piece pieces' =>
        rw [pieces] at ih
        cases pieces' with
        | nil => simpa using ih
        | cons piece' pieces' =>
          rw [List.intercalate_cons_cons] at ih
          dsimp only
          rw [List.intercalate_cons_cons, List.cons_append, List.cons_append, ih]

/-! ## Clean paths -/

/-- Whether a text may stand as a segment of a path that has been built. -/
structure IsSegment (segment : List Char) : Prop where
  plain : ∀ c ∈ segment, isPlain c = true
  whole : ∀ c ∈ segment, isSeparator c = false
  single : isSingleDot segment = false
  double : isDoubleDot segment = false

/-- Whether a path is one that can have been built: no character of it needs an escape, and none of
its segments stands for a directory. -/
structure IsClean (path : List Char) : Prop where
  plain : ∀ c ∈ path, isPlain c = true
  backslash : '\\' ∉ path
  single : ∀ segment ∈ segments path, isSingleDot segment = false
  double : ∀ segment ∈ segments path, isDoubleDot segment = false

/-- Whether a segment can be added to a path: it is empty, a directory, or it ends in a drive
letter. -/
structure IsOpen (path : List Char) : Prop where
  clean : IsClean path
  ending : path = [] ∨ (∃ front, path = front ++ ['/']) ∨
    ∃ front letter, path = front ++ ['/', letter, ':'] ∧ letter.isAlpha = true

theorem IsClean.isSegment {path segment : List Char} (h : IsClean path)
    (mem : segment ∈ segments path) : IsSegment segment where
  plain c inside := h.plain c (mem_segments mem inside).1
  whole _ inside := (mem_segments mem inside).2
  single := h.single segment mem
  double := h.double segment mem

theorem IsSegment.isClean {segment : List Char} (h : IsSegment segment) : IsClean segment where
  plain := h.plain
  backslash mem := by cases h.whole _ mem
  single := by
    rw [segments_of_forall h.whole, List.forall_mem_singleton]
    exact h.single
  double := by
    rw [segments_of_forall h.whole, List.forall_mem_singleton]
    exact h.double

theorem isSegment_nil : IsSegment [] where
  plain := by simp
  whole := by simp
  single := by decide
  double := by decide

theorem isClean_nil : IsClean [] := isSegment_nil.isClean

/-- Two clean paths with a slash between them are a clean path, and so are its parts. -/
theorem isClean_append_cons {a b : List Char} :
    IsClean (a ++ '/' :: b) ↔ IsClean a ∧ IsClean b := by
  have slash : isPlain '/' = true ∧ '\\' ≠ '/' := by decide
  constructor
  · rintro ⟨plain, backslash, single, double⟩
    rw [segments_append_cons, List.forall_mem_append] at single double
    rw [List.forall_mem_append, List.forall_mem_cons] at plain
    rw [List.mem_append, List.mem_cons, not_or, not_or] at backslash
    exact ⟨⟨plain.1, backslash.1, single.1, double.1⟩,
      ⟨plain.2.2, backslash.2.2, single.2, double.2⟩⟩
  · rintro ⟨front, back⟩
    constructor
    case plain =>
      rw [List.forall_mem_append, List.forall_mem_cons]
      exact ⟨front.plain, slash.1, back.plain⟩
    case backslash =>
      rw [List.mem_append, List.mem_cons, not_or, not_or]
      exact ⟨front.backslash, slash.2, back.backslash⟩
    case single =>
      rw [segments_append_cons, List.forall_mem_append]
      exact ⟨front.single, back.single⟩
    case double =>
      rw [segments_append_cons, List.forall_mem_append]
      exact ⟨front.double, back.double⟩

theorem isClean_cons {path : List Char} : IsClean ('/' :: path) ↔ IsClean path :=
  (isClean_append_cons (a := [])).trans (and_iff_right isClean_nil)

theorem IsClean.isOpen_append {path : List Char} (h : IsClean path) : IsOpen (path ++ ['/']) :=
  ⟨isClean_append_cons.mpr ⟨h, isClean_nil⟩, .inr (.inl ⟨path, rfl⟩)⟩

theorem isOpen_nil : IsOpen [] := ⟨isClean_nil, .inl rfl⟩

/-- A drive letter is a letter and a mark. -/
theorem exists_of_isDriveLetter {segment : List Char} (drive : isDriveLetter segment = true) :
    ∃ letter mark, segment = [letter, mark] ∧ letter.isAlpha = true := by
  unfold isDriveLetter at drive
  split at drive
  case h_2 => cases drive
  case h_1 letter mark =>
    rw [Bool.and_eq_true] at drive
    exact ⟨letter, mark, rfl, drive.1⟩

/-- A drive letter with a colon. -/
theorem exists_of_isNormalDriveLetter {segment : List Char}
    (drive : isNormalDriveLetter segment = true) :
    ∃ letter, segment = [letter, ':'] ∧ letter.isAlpha = true := by
  rw [isNormalDriveLetter, Bool.and_eq_true, beq_iff_eq] at drive
  obtain ⟨letter, mark, rfl, alpha⟩ := exists_of_isDriveLetter drive.1
  obtain rfl : mark = ':' := by simpa using drive.2
  exact ⟨letter, rfl, alpha⟩

/-- A letter and a colon at the start keep a segment from standing for a directory. -/
theorem IsSegment.behind_drive {letter : Char} {segment : List Char} (alpha : letter.isAlpha = true)
    (plain : isPlain letter = true) (h : IsSegment segment) :
    IsSegment (letter :: ':' :: segment) := by
  have apart (mark : Char) (other : mark.isAlpha = false) : letter ≠ mark := by
    rintro rfl
    rw [alpha] at other
    cases other
  constructor
  case plain =>
    rw [List.forall_mem_cons, List.forall_mem_cons]
    exact ⟨plain, by decide, h.plain⟩
  case whole =>
    rw [List.forall_mem_cons, List.forall_mem_cons]
    refine ⟨?_, by decide, h.whole⟩
    simp [isSeparator, apart '/' (by decide), apart '\\' (by decide)]
  case single => simp [isSingleDot]
  case double => simp [isDoubleDot]

/-- A drive letter at the root is a directory. -/
theorem isOpen_drive {letter : Char} (alpha : letter.isAlpha = true)
    (plain : isPlain letter = true) : IsOpen ['/', letter, ':'] :=
  ⟨isClean_cons.mpr (isSegment_nil.behind_drive alpha plain).isClean,
    .inr (.inr ⟨[], letter, rfl, alpha⟩)⟩

/-- A segment behind an open path makes a clean path. -/
theorem IsOpen.isClean_append {path segment : List Char} (h : IsOpen path)
    (added : IsSegment segment) : IsClean (path ++ segment) := by
  rcases h.ending with rfl | ⟨front, rfl⟩ | ⟨front, letter, rfl, alpha⟩
  · exact added.isClean
  · rw [List.append_assoc, List.singleton_append]
    exact isClean_append_cons.mpr ⟨(isClean_append_cons.mp h.clean).1, added.isClean⟩
  · have parts := isClean_append_cons.mp h.clean
    have behind := added.behind_drive alpha (parts.2.plain letter List.mem_cons_self)
    rw [List.append_assoc]
    exact isClean_append_cons.mpr ⟨parts.1, behind.isClean⟩

/-- The segment of a reference is a segment of a path, unless it stands for a directory. -/
theorem isSegment_percentEncode {raw : List Char} (whole : ∀ c ∈ raw, isSeparator c = false)
    (single : isSingleDot (percentEncode isPlain raw) = false)
    (double : isDoubleDot (percentEncode isPlain raw) = false) :
    IsSegment (percentEncode isPlain raw) := by
  refine ⟨fun c mem => plain_of_mem_percentEncode (by decide) mem, fun c mem => ?_, single, double⟩
  rcases mem_or_mem_escape mem with ⟨mem, -⟩ | mem
  · exact whole c mem
  · have escapes : "%0123456789ABCDEF".toList.all (fun c => !isSeparator c) = true := by decide
    simpa using List.all_eq_true.mp escapes c mem

/-! ## Building a path -/

/-- A text is cut at its last slash. -/
theorem exists_last_slash {path : List Char} (mem : '/' ∈ path) :
    ∃ front name, path = front ++ '/' :: name ∧ '/' ∉ name := by
  obtain ⟨back, front, turned, none⟩ := List.eq_append_cons_of_mem (List.mem_reverse.mpr mem)
  refine ⟨front.reverse, back.reverse, ?_, by simpa using none⟩
  rw [← List.reverse_reverse path, turned]
  simp

theorem bne_of_not_mem {name : List Char} (none : '/' ∉ name) : ∀ c ∈ name, (c != '/') = true := by
  intro c mem
  rw [bne_iff_ne]
  rintro rfl
  exact none mem

theorem reverse_append_cons (front name : List Char) :
    (front ++ '/' :: name).reverse = name.reverse ++ '/' :: front.reverse := by
  simp

theorem directory_append_cons {front name : List Char} (none : '/' ∉ name) :
    directory (front ++ '/' :: name) = front ++ ['/'] := by
  have ends := bne_of_not_mem (mt List.mem_reverse.mp none)
  rw [directory, reverse_append_cons, List.dropWhile_append_of_pos ends]
  simp

/-- The directory of a clean path is open. -/
theorem IsClean.isOpen_directory {path : List Char} (h : IsClean path) (mem : '/' ∈ path) :
    IsOpen (directory path) := by
  obtain ⟨front, name, rfl, none⟩ := exists_last_slash mem
  rw [directory_append_cons none]
  exact (isClean_append_cons.mp h).1.isOpen_append

theorem IsClean.dropLast {path : List Char} (h : IsClean (path ++ ['/'])) : IsClean path :=
  (isClean_append_cons.mp h).1

theorem IsOpen.parent {path : List Char} (h : IsOpen path) : IsOpen (parent path) := by
  unfold Path.parent
  dsimp only
  split
  · exact h
  case isFalse inner =>
    simp only [Bool.or_eq_true, not_or, bne_iff_ne, not_not, Bool.not_eq_true', Bool.not_eq_false,
      List.contains_eq_mem, decide_eq_true_eq] at inner
    obtain ⟨⟨last, mem⟩, -⟩ := inner
    obtain ⟨inside, rfl⟩ : ∃ inside, path = inside ++ ['/'] := List.getLast?_eq_some_iff.mp last
    rw [List.dropLast_concat] at mem ⊢
    exact h.clean.dropLast.isOpen_directory mem

/-- What is added to a path behind a segment. -/
def slashIf (slash : Bool) : List Char := if slash then ['/'] else []

/-- An open path with a segment behind it, and a slash where there is one. -/
theorem IsOpen.add {path segment : List Char} (h : IsOpen path) (added : IsSegment segment)
    (slash : Bool) : IsClean (path ++ segment ++ slashIf slash) ∧
      (slash = true → IsOpen (path ++ segment ++ slashIf slash)) := by
  have whole := h.isClean_append added
  cases slash with
  | false =>
    rw [slashIf, if_neg (by decide), List.append_nil]
    exact ⟨whole, fun same => by cases same⟩
  | true => exact ⟨whole.isOpen_append.clean, fun _ => whole.isOpen_append⟩

/-- Adding a segment to an open path gives a clean path, and an open one if a slash follows. -/
theorem IsOpen.push {isFile slash : Bool} {s : State} {raw : List Char} (h : IsOpen s.path)
    (whole : ∀ c ∈ raw, isSeparator c = false) : IsClean (s.push isFile raw slash).path ∧
      (slash = true → IsOpen (s.push isFile raw slash).path) := by
  have start : IsOpen (if isFile && !raw.isEmpty && isNormalDriveLetter (s.path.drop 1)
      then s.path ++ ['/'] else s.path) := by
    split
    · exact h.clean.isOpen_append
    · exact h
  unfold State.push
  dsimp only
  generalize (if isFile && !raw.isEmpty && isNormalDriveLetter (s.path.drop 1)
      then s.path ++ ['/'] else s.path) = path at start
  split
  · exact ⟨start.parent.clean, fun _ => start.parent⟩
  case isFalse double =>
    split
    case isTrue =>
      have kept : IsOpen (if path.getLast? = some '/' then path else path ++ ['/']) := by
        split
        · exact start
        · exact start.clean.isOpen_append
      exact ⟨kept.clean, fun _ => kept⟩
    case isFalse single =>
      rw [Bool.not_eq_true] at single double
      have segment := isSegment_percentEncode whole single double
      generalize percentEncode isPlain raw = name at segment
      split
      case isFalse => exact start.add segment slash
      case isTrue here =>
        simp only [Bool.and_eq_true, decide_eq_true_eq] at here
        obtain ⟨-, drive⟩ := here
        obtain ⟨letter, mark, rfl, alpha⟩ := exists_of_isDriveLetter drive
        have normal := isSegment_nil.behind_drive alpha (segment.plain letter List.mem_cons_self)
        have added := start.add normal slash
        rw [show path ++ [letter, mark].take 1 ++ [':'] = path ++ [letter, ':'] by simp]
        exact added

/-- Adding the segments of a reference to an open path gives a clean path. -/
theorem IsOpen.pushAll {isFile : Bool} {s : State} {pieces : List (List Char)} (h : IsOpen s.path)
    (whole : ∀ raw ∈ pieces, ∀ c ∈ raw, isSeparator c = false) :
    IsClean (s.pushAll isFile pieces).path := by
  induction s, pieces using State.pushAll.induct isFile with
  | case1 s => exact h.clean
  | case2 s segment =>
    rw [List.forall_mem_singleton] at whole
    exact (h.push whole).1
  | case3 s segment pieces _ ih =>
    rw [List.forall_mem_cons] at whole
    rw [State.pushAll]
    · exact ih ((h.push whole.1).2 rfl) whole.2
    · assumption

theorem isClean_dropWhile {path : List Char} (h : IsClean path) :
    IsClean (path.dropWhile (· == '/')) := by
  induction path with
  | nil => exact h
  | cons c path ih =>
    rw [List.dropWhile_cons]
    split
    case isFalse => exact h
    case isTrue slash =>
      rw [beq_iff_eq] at slash
      rw [slash] at h
      exact ih (isClean_cons.mp h)

/-- The path of a reference is clean. -/
theorem isClean_resolve {isFile : Bool} {start : List Char} (h : IsOpen start)
    (reference : List Char) : IsClean (resolve isFile start reference).path := by
  have all : IsClean (State.pushAll isFile ⟨start, false⟩ (segments reference)).path :=
    IsOpen.pushAll h fun raw mem c inside => (mem_segments mem inside).2
  unfold resolve
  dsimp only
  split
  · exact isClean_cons.mpr (isClean_dropWhile all)
  · exact all

/-- The path of a reference to a file starts with one slash. -/
theorem head?_drop_resolve (start reference : List Char) :
    ((resolve true start reference).path.drop 1).head? ≠ some '/' := by
  intro slash
  have stops := List.head?_dropWhile_not (· == '/')
    (State.pushAll true ⟨start, false⟩ (segments reference)).path
  change (List.dropWhile (· == '/') _).head? = some '/' at slash
  rw [slash] at stops
  cases stops

/-- What a reference relative to a clean path starts from is open. -/
theorem isOpen_base {path : List Char} (h : IsClean path) (mem : '/' ∈ path) (isFile : Bool) :
    IsOpen (base isFile path) := by
  unfold base
  dsimp only
  split
  case isFalse => exact h.isOpen_directory mem
  case isTrue drive =>
    obtain ⟨front, name, rfl, none⟩ := exists_last_slash mem
    have ends := bne_of_not_mem (mt List.mem_reverse.mp none)
    have last : ((front ++ '/' :: name).reverse.takeWhile (· != '/')).reverse = name := by
      rw [reverse_append_cons, List.takeWhile_append_of_pos ends]
      simp
    rw [last, Bool.and_eq_true] at drive
    obtain ⟨letter, rfl, alpha⟩ := exists_of_isNormalDriveLetter drive.2
    exact ⟨h, .inr (.inr ⟨front, letter, rfl, alpha⟩)⟩

/-! ## Paths that are read back -/

/-- Whether segments that are added to a path are not changed by what it holds: in a file URL it
holds more than one segment. -/
def IsSteady (isFile : Bool) (path : List Char) : Prop := isFile = true → '/' ∈ path.drop 1

theorem IsSteady.append {isFile : Bool} {path : List Char} (h : IsSteady isFile path)
    (more : List Char) : IsSteady isFile (path ++ more) := by
  intro file
  have mem := h file
  cases path with
  | nil => cases mem
  | cons c path => exact List.mem_append_left more mem

/-- A segment of a clean path is added as it is. -/
theorem IsSteady.push {isFile : Bool} {s : State} {segment : List Char}
    (h : IsSteady isFile s.path) (clean : IsSegment segment) (slash : Bool) :
    s.push isFile segment slash = { s with path := s.path ++ segment ++ slashIf slash } := by
  have noDrive : (isFile && !segment.isEmpty && isNormalDriveLetter (s.path.drop 1)) = false := by
    cases isFile with
    | false => rfl
    | true =>
      rw [← Bool.not_eq_true, Bool.and_eq_true]
      rintro ⟨-, drive⟩
      obtain ⟨letter, two, alpha⟩ := exists_of_isNormalDriveLetter drive
      have mem := h rfl
      rw [two] at mem
      simp only [List.mem_cons, List.not_mem_nil, or_false] at mem
      rcases mem with rfl | same
      · cases alpha
      · cases same
  have noRoot : (isFile && decide (s.path.length = 1) && isDriveLetter segment) = false := by
    cases isFile with
    | false => rfl
    | true =>
      have long : ¬ s.path.length = 1 := by
        intro one
        have mem := h rfl
        rw [List.drop_of_length_le (by omega)] at mem
        cases mem
      rw [decide_eq_false long]
      rfl
  unfold State.push
  dsimp only
  rw [percentEncode_of_forall clean.plain, clean.single, clean.double, noDrive]
  simp only [noRoot, Bool.false_eq_true, if_false]
  rfl

/-- The segments of a clean path are added as they are. -/
theorem IsSteady.pushAll {isFile : Bool} {s : State} {pieces : List (List Char)}
    (h : IsSteady isFile s.path) (clean : ∀ segment ∈ pieces, IsSegment segment) :
    s.pushAll isFile pieces = { s with path := s.path ++ ['/'].intercalate pieces } := by
  induction s, pieces using State.pushAll.induct isFile with
  | case1 s => simp [State.pushAll]
  | case2 s segment =>
    rw [List.forall_mem_singleton] at clean
    rw [State.pushAll, h.push clean]
    simp [slashIf]
  | case3 s segment pieces some ih =>
    rw [List.forall_mem_cons] at clean
    have pushed := h.push clean.1 true
    rw [State.pushAll]
    · rw [pushed] at ih ⊢
      rw [ih ?_ clean.2]
      · rw [List.intercalate_cons_of_ne_nil (fun none => some none)]
        simp [slashIf]
      · rw [List.append_assoc]
        exact h.append _
    · assumption

/-- The path of a clean reference from the root of a server on is read back. -/
theorem resolve_clean {path : List Char} (h : IsClean path) :
    (resolve false ['/'] path).path = '/' :: path := by
  have steady : IsSteady false (State.mk ['/'] false).path := fun same => by cases same
  unfold resolve
  rw [steady.pushAll fun _ => h.isSegment, intercalate_segments h.backslash]
  rfl

theorem pushAll_cons {isFile : Bool} {s : State} (segment : List Char)
    {pieces : List (List Char)} (some : pieces ≠ []) :
    s.pushAll isFile (segment :: pieces) = (s.push isFile segment true).pushAll isFile pieces := by
  rw [State.pushAll]
  exact some

theorem dropWhile_slash {path : List Char} (first : path.head? ≠ some '/') :
    path.dropWhile (· == '/') = path := by
  cases path with
  | nil => rfl
  | cons c path =>
    rw [List.dropWhile_cons, if_neg]
    simpa using first

/-- The path of a file is read back where no host stands in front of it. -/
theorem resolve_clean_file {path : List Char} (h : IsClean path)
    (first : path.head? ≠ some '/') : (resolve true ['/'] ('/' :: path)).path = '/' :: path := by
  have root : State.push true ⟨['/'], false⟩ [] true = ⟨['/', '/'], false⟩ := rfl
  have steady : IsSteady true (State.mk ['/', '/'] false).path := fun _ => List.mem_cons_self
  have all : State.pushAll true ⟨['/'], false⟩ (segments ('/' :: path)) =
      ⟨'/' :: '/' :: path, false⟩ := by
    rw [show segments ('/' :: path) = [] :: segments path from rfl,
      pushAll_cons [] (segments_ne_nil path), root, steady.pushAll fun _ => h.isSegment,
      intercalate_segments h.backslash]
    rfl
  unfold resolve
  rw [all]
  simp [dropWhile_slash first]

/-- A path with a colon behind the letter that it starts with. -/
def withColon (path : List Char) : List Char := path.take 2 ++ ':' :: path.drop 3

/-- The first segment of a path becomes the root if it is a drive letter. -/
theorem push_first {segment : List Char} (clean : IsSegment segment) (slash : Bool) :
    State.push true ⟨['/'], false⟩ segment slash =
      if isDriveLetter segment then ⟨withColon ('/' :: segment) ++ slashIf slash, true⟩
      else ⟨'/' :: segment ++ slashIf slash, false⟩ := by
  have noDrive : (true && !segment.isEmpty && isNormalDriveLetter (['/'].drop 1)) = false := by
    simp [isNormalDriveLetter, isDriveLetter]
  unfold State.push
  dsimp only
  rw [percentEncode_of_forall clean.plain, clean.single, clean.double, noDrive]
  simp only [Bool.false_eq_true, if_false]
  by_cases drive : isDriveLetter segment = true
  · obtain ⟨letter, mark, rfl, -⟩ := exists_of_isDriveLetter drive
    rw [if_pos drive, if_pos (by simpa using drive)]
    rfl
  · rw [if_neg drive, if_neg (by simpa using drive)]
    rfl

theorem not_isSeparator {name : List Char} (slash : '/' ∉ name) (backslash : '\\' ∉ name) :
    ∀ c ∈ name, isSeparator c = false := by
  intro c mem
  rw [← Bool.not_eq_true, isSeparator, Bool.or_eq_true, beq_iff_eq, beq_iff_eq]
  rintro (rfl | rfl)
  · exact slash mem
  · exact backslash mem

/-- The segments of a clean path on top of the root. -/
theorem pushAll_segments {path : List Char} (h : IsClean path) :
    State.pushAll true ⟨['/'], false⟩ (segments path) =
      if isDriveLetter (path.takeWhile (· != '/')) then ⟨withColon ('/' :: path), true⟩
      else ⟨'/' :: path, false⟩ := by
  by_cases mem : '/' ∈ path
  · obtain ⟨name, rest, rfl, slash⟩ := List.eq_append_cons_of_mem mem
    have parts := isClean_append_cons.mp h
    have whole := not_isSeparator slash parts.1.backslash
    have one : segments name = [name] := segments_of_forall whole
    have isSegment : IsSegment name := parts.1.isSegment (one ▸ List.mem_singleton_self name)
    have steady (front : List Char) (drive : Bool) :
        IsSteady true (State.mk ('/' :: front ++ slashIf true) drive).path :=
      fun _ => List.mem_append_right front (List.mem_singleton_self '/')
    have front : (name ++ '/' :: rest).takeWhile (· != '/') = name := by
      rw [List.takeWhile_append_of_pos (bne_of_not_mem slash)]
      simp
    have behind := intercalate_segments parts.2.backslash
    rw [segments_append_cons, one, List.singleton_append, pushAll_cons name (segments_ne_nil rest),
      push_first isSegment, front]
    split
    case isTrue drive =>
      obtain ⟨letter, mark, rfl, -⟩ := exists_of_isDriveLetter drive
      have pushed := (steady [letter, ':'] true).pushAll fun _ => parts.2.isSegment
      rw [behind] at pushed
      exact pushed
    case isFalse =>
      rw [(steady name false).pushAll fun _ => parts.2.isSegment, behind]
      simp [slashIf]
  · have whole := not_isSeparator mem h.backslash
    have one : segments path = [path] := segments_of_forall whole
    have isSegment : IsSegment path := h.isSegment (one ▸ List.mem_singleton_self path)
    have front : path.takeWhile (· != '/') = path := by
      rw [List.takeWhile_eq_self_iff]
      exact bne_of_not_mem mem
    rw [one, State.pushAll, push_first isSegment, front]
    simp [slashIf]

/-- The path of a file behind a host is read back, but a drive letter at its start takes the place of
the host. -/
theorem resolve_clean_host {path : List Char} (h : IsClean path) (first : path.head? ≠ some '/') :
    resolve true ['/'] path =
      if isDriveLetter (path.takeWhile (· != '/')) then ⟨withColon ('/' :: path), true⟩
      else ⟨'/' :: path, false⟩ := by
  unfold resolve
  rw [pushAll_segments h]
  split
  case isFalse => simp [dropWhile_slash first]
  case isTrue drive =>
    obtain ⟨letter, mark, start, alpha⟩ := exists_of_isDriveLetter drive
    obtain ⟨rest, rfl⟩ : ∃ rest, path = letter :: mark :: rest := by
      obtain ⟨rest, split⟩ := List.takeWhile_prefix (l := path) (· != '/')
      rw [start] at split
      exact ⟨rest, split.symm⟩
    have noSlash : letter ≠ '/' := by
      rintro rfl
      cases alpha
    simp [withColon, noSlash]

end ModuleLinker.Url.Path
