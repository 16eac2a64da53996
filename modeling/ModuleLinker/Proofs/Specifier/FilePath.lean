import ModuleLinker.Proofs.Specifier.Way
import ModuleLinker.Proofs.Text.Blank
import ModuleLinker.Proofs.Text.Split

/-!
# Paths of files

The specifier of a path has the path's names, escaped, behind one another. Which names these are is said
in `Way`: those of the lexical form of the path, unless a drive letter would have to be taken away or is
written with a colon. Different lexical forms have different specifiers, and the path that such a
specifier leads to is the lexical form again, except for a slash behind a path that ends as a drive letter
does (`Specifier.ofPath_lexical`).
-/

set_option autoImplicit false

namespace ModuleLinker.Specifier

open Text Url

/-! ## Names as they are written -/

/-- A name with its escapes. -/
def escaped (name : List Char) : List Char := percentEncode isPlainSegment name

/-- Names as the path of a specifier. -/
def written (names : List (List Char)) : List Char := names.flatMap fun name => '/' :: escaped name

/-- Names as an absolute path. -/
def pathOf (names : List (List Char)) : String :=
  String.ofList (if names.isEmpty then ['/'] else names.flatMap ('/' :: ·))

@[simp]
theorem written_nil : written [] = [] := rfl

@[simp]
theorem written_cons (name : List Char) (names : List (List Char)) :
    written (name :: names) = '/' :: (escaped name ++ written names) := rfl

theorem written_concat (names : List (List Char)) (name : List Char) :
    written (names ++ [name]) = written names ++ '/' :: escaped name := by
  rw [written, List.flatMap_append, List.flatMap_singleton]
  rfl

theorem isPlainSegment_iff {c : Char} :
    isPlainSegment c = true ↔ Path.isPlain c = true ∧ c ∉ "/%\\".toList := by
  unfold isPlainSegment
  simp

theorem isPlain_of_mem_escaped {name : List Char} {c : Char} (mem : c ∈ escaped name) :
    Path.isPlain c = true := by
  rcases mem_percentEncode mem with plain | digit
  · exact (isPlainSegment_iff.mp plain).1
  · have all : "%0123456789ABCDEF".toList.all Path.isPlain = true := by decide
    exact List.all_eq_true.mp all c digit

theorem slash_not_mem_escaped (name : List Char) : '/' ∉ escaped name :=
  not_mem_percentEncode name (by decide) (by decide)

theorem isSeparator_of_mem_escaped {name : List Char} {c : Char} (mem : c ∈ escaped name) :
    Path.isSeparator c = false :=
  Path.not_isSeparator (slash_not_mem_escaped name)
    (not_mem_percentEncode name (by decide) (by decide)) c mem

theorem escaped_injective {name name' : List Char} (same : escaped name = escaped name') :
    name = name' := percentEncode_injective (by decide) same

/-- A text that is read as the same characters as an escaped name is that of the name. -/
theorem eq_of_percentDecode {name cs : List Char} (read : percentDecode (escaped name) = bytesOf cs) :
    name = cs := by
  rw [escaped, percentDecode_percentEncode (by decide)] at read
  exact bytesOf_injective read

theorem escaped_ne_nil {name : List Char} (filled : name ≠ []) : escaped name ≠ [] := by
  rw [← List.isEmpty_eq_false_iff, escaped, isEmpty_percentEncode]
  exact List.isEmpty_eq_false_iff.mpr filled

/-- No escape stands for a dot: only a dot is written as one. -/
theorem isSingleDot_escaped {name : List Char} (dot : name ≠ ['.']) :
    Path.isSingleDot (escaped name) = false := by
  rw [← Bool.not_eq_true]
  intro single
  obtain ⟨text, mem, same⟩ := List.any_eq_true.mp single
  rw [beq_iff_eq] at same
  have all : [".", "%2e", "%2E"].all
      (fun text => percentDecode text.toList == bytesOf ['.']) = true := by decide
  have read := List.all_eq_true.mp all text mem
  rw [beq_iff_eq, same] at read
  exact dot (eq_of_percentDecode read)

theorem isDoubleDot_escaped (name : List Char) :
    Path.isDoubleDot (escaped name) = decide (name = dots) := by
  by_cases here : name = dots
  · rw [here, decide_eq_true rfl]
    decide
  · rw [decide_eq_false here, ← Bool.not_eq_true]
    intro double
    obtain ⟨text, mem, same⟩ := List.any_eq_true.mp double
    rw [beq_iff_eq] at same
    have all : ["..", "%2e%2e", "%2e%2E", "%2E%2e", "%2E%2E", "%2e.", "%2E.", ".%2e", ".%2E"].all
        (fun text => percentDecode text.toList == bytesOf ['.', '.']) = true := by decide
    have read := List.all_eq_true.mp all text mem
    rw [beq_iff_eq, same] at read
    exact here (eq_of_percentDecode read)

/-- Letters are visible characters. -/
theorem code_of_isAlpha {c : Char} (alpha : c.isAlpha = true) : 0x20 < c.toNat ∧ c.toNat < 0x7F := by
  obtain upper | lower : c.isUpper = true ∨ c.isLower = true := Bool.or_eq_true_iff.mp alpha
  · obtain ⟨first, last⟩ : 'A'.val ≤ c.val ∧ c.val ≤ 'Z'.val := of_decide_eq_true upper
    exact ⟨Nat.lt_of_lt_of_le (by decide) (UInt32.le_iff_toNat_le.mp first),
      Nat.lt_of_le_of_lt (UInt32.le_iff_toNat_le.mp last) (by decide)⟩
  · obtain ⟨first, last⟩ : 'a'.val ≤ c.val ∧ c.val ≤ 'z'.val :=
      (Bool.and_eq_true_iff.mp lower).imp of_decide_eq_true of_decide_eq_true
    exact ⟨Nat.lt_of_lt_of_le (by decide) (UInt32.le_iff_toNat_le.mp first),
      Nat.lt_of_le_of_lt (UInt32.le_iff_toNat_le.mp last) (by decide)⟩

theorem isPlainSegment_of_isAlpha {c : Char} (alpha : c.isAlpha = true) : isPlainSegment c = true := by
  have apart (marks : List Char) (none : marks.all (fun c => !c.isAlpha) = true) : c ∉ marks := by
    intro mem
    have other := List.all_eq_true.mp none c mem
    rw [alpha] at other
    cases other
  rw [isPlainSegment_iff]
  refine ⟨?_, apart _ (by decide)⟩
  unfold Path.isPlain
  simp only [Bool.and_eq_true, decide_eq_true_eq, Bool.not_eq_true', List.contains_eq_mem,
    decide_eq_false_iff_not]
  exact ⟨code_of_isAlpha alpha, apart _ (by decide)⟩

theorem escaped_drive {name : List Char} (drive : Path.isDriveLetter name = true) :
    escaped name = name := by
  unfold Path.isDriveLetter at drive
  split at drive
  case h_2 => cases drive
  case h_1 letter mark =>
    simp only [Bool.and_eq_true, Bool.or_eq_true, beq_iff_eq] at drive
    obtain ⟨alpha, mark⟩ := drive
    apply percentEncode_of_forall
    rw [List.forall_mem_cons, List.forall_mem_singleton]
    refine ⟨isPlainSegment_of_isAlpha alpha, ?_⟩
    rcases mark with rfl | rfl <;> decide

theorem isDriveLetter_escaped (name : List Char) :
    Path.isDriveLetter (escaped name) = Path.isDriveLetter name := by
  cases drive : Path.isDriveLetter name with
  | true => rw [escaped_drive drive, drive]
  | false =>
    rw [← Bool.not_eq_true]
    intro other
    have same : escaped (escaped name) = escaped name := escaped_drive other
    have kept := escaped_injective same
    rw [kept, drive] at other
    cases other

/-! ## Building the path -/

/-- What has been built of a path. -/
def Way.path (w : Way) : List Char := (if w.above then [] else ['/']) ++ written w.names ++ ['/']

theorem parent_append {name : List Char} (front : List Char) (slash : '/' ∉ name) :
    Path.parent (front ++ '/' :: name ++ ['/']) =
      if Path.isDriveLetter name then front ++ '/' :: name ++ ['/'] else front ++ ['/'] := by
  have ends := Path.bne_of_not_mem (mt List.mem_reverse.mp slash)
  have last : ((front ++ '/' :: name).reverse.takeWhile (· != '/')).reverse = name := by
    rw [Path.reverse_append_cons, List.takeWhile_append_of_pos ends]
    simp
  unfold Path.parent
  dsimp only
  rw [List.dropLast_concat, last, List.getLast?_concat, Path.directory_append_cons slash]
  simp

/-- The directory above is that of the names before the last one. -/
theorem parent_path (w : Way) : Path.parent w.path = (w.step dots).path := by
  obtain ⟨names, above⟩ := w
  rcases List.eq_nil_or_concat' names with rfl | ⟨init, last, rfl⟩
  · cases above <;> rfl
  · unfold Way.step Way.path
    dsimp only
    rw [if_pos rfl, List.getLast?_concat, written_concat, ← List.append_assoc,
      parent_append _ (slash_not_mem_escaped last), isDriveLetter_escaped, List.dropLast_concat]
    dsimp only
    split
    · rw [written_concat, ← List.append_assoc]
    · rfl

theorem length_path (w : Way) : w.path.length = 1 ↔ w.above = true ∧ w.names = [] := by
  obtain ⟨names, above⟩ := w
  cases above <;> cases names <;> simp [Way.path]

/-- A path that ends in a slash is no drive letter. -/
theorem isNormalDriveLetter_path (w : Way) : Path.isNormalDriveLetter (w.path.drop 1) = false := by
  rw [← Bool.not_eq_true]
  intro drive
  obtain ⟨letter, same, -⟩ := Path.exists_of_isNormalDriveLetter drive
  obtain ⟨c, rest, split⟩ : ∃ c rest, w.path = c :: rest :=
    List.exists_cons_of_ne_nil (by simp [Way.path])
  have last : w.path.getLast? = some '/' := List.getLast?_concat
  rw [split, List.drop_one, List.tail_cons] at same
  rw [split, same] at last
  simp at last

section Push

variable {s : Path.State} {w : Way} {name : List Char}

/-- A name is added to what has been built. -/
theorem push_escaped (here : s.path = w.path) (dot : name ≠ ['.']) :
    (s.push true (escaped name) true).path = (w.step name).path := by
  have plain : percentEncode Path.isPlain (escaped name) = escaped name :=
    percentEncode_of_forall fun _ => isPlain_of_mem_escaped
  unfold Path.State.push
  dsimp only
  rw [plain, here, isNormalDriveLetter_path, Bool.and_false, if_neg Bool.false_ne_true,
    isDoubleDot_escaped, isSingleDot_escaped dot, isDriveLetter_escaped]
  by_cases up : name = dots
  · subst up
    rw [decide_eq_true rfl, if_pos rfl, parent_path]
  · rw [decide_eq_false up, if_neg Bool.false_ne_true, if_neg Bool.false_ne_true]
    unfold Way.step
    rw [if_neg up]
    have root : (true && decide (w.path.length = 1) && Path.isDriveLetter name) =
        (w.above && w.names.isEmpty && Path.isDriveLetter name) := by
      rw [Bool.eq_iff_iff]
      simp [length_path]
    rw [root]
    split
    case isTrue drive =>
      simp only [Bool.and_eq_true, List.isEmpty_iff] at drive
      obtain ⟨letter, mark, rfl, alpha⟩ := Path.exists_of_isDriveLetter drive.2
      have other : escaped [letter, ':'] = [letter, ':'] :=
        escaped_drive (by simp [Path.isDriveLetter, alpha])
      simp [Way.path, drive.1, escaped_drive drive.2, other]
    case isFalse => simp [Way.path, written_concat]

/-- The last name is added without a slash. -/
theorem push_escaped_last (dot : name ≠ ['.']) (up : name ≠ dots) :
    (s.push true (escaped name) false).path ++ ['/'] = (s.push true (escaped name) true).path := by
  have plain : percentEncode Path.isPlain (escaped name) = escaped name :=
    percentEncode_of_forall fun _ => isPlain_of_mem_escaped
  unfold Path.State.push
  dsimp only
  rw [plain, isDoubleDot_escaped, isSingleDot_escaped dot, decide_eq_false up,
    if_neg Bool.false_ne_true, if_neg Bool.false_ne_true, if_neg Bool.false_ne_true,
    if_neg Bool.false_ne_true]
  generalize (if true && !(escaped name).isEmpty && Path.isNormalDriveLetter (s.path.drop 1)
    then s.path ++ ['/'] else s.path) = path
  split <;> simp

/-- Names are added to what has been built. -/
theorem pushAll_escaped {names : List (List Char)} (here : s.path = w.path)
    (dot : ∀ name ∈ names, name ≠ ['.']) (some : names ≠ []) (last : names.getLast? ≠ .some dots) :
    (s.pushAll true (names.map escaped)).path ++ ['/'] = (names.foldl Way.step w).path := by
  induction names generalizing s w with
  | nil => exact absurd rfl some
  | cons name names ih =>
    rw [List.forall_mem_cons] at dot
    rw [List.foldl_cons, List.map_cons]
    rcases List.eq_nil_or_concat' names with rfl | ⟨init, final, rfl⟩
    · have up : name ≠ dots := fun same => last (congrArg _ same)
      rw [List.map_nil, Path.State.pushAll, push_escaped_last dot.1 up, push_escaped here dot.1]
      rfl
    · rw [Path.pushAll_cons _ (by simp)]
      refine ih (push_escaped here dot.1) dot.2 (by simp) ?_
      rwa [← List.cons_append, List.getLast?_concat, ← List.getLast?_concat (l := init)] at last

end Push

/-- The names of a path are its segments. -/
theorem segments_written (name : List Char) (names : List (List Char)) :
    Path.segments (escaped name ++ written names) = escaped name :: names.map escaped := by
  have one (name : List Char) : Path.segments (escaped name) = [escaped name] :=
    Path.segments_of_forall fun _ => isSeparator_of_mem_escaped
  induction names generalizing name with
  | nil => rw [written_nil, List.append_nil, one, List.map_nil]
  | cons name' names ih =>
    rw [written_cons, Path.segments_append_cons, one, ih]
    rfl

/-- Names as the path of a specifier, where there may be none. -/
def rooted (names : List (List Char)) : List Char := if names.isEmpty then ['/'] else written names

theorem segments_rooted (names : List (List Char)) :
    Path.segments (rooted names) = [] :: if names.isEmpty then [[]] else names.map escaped := by
  cases names with
  | nil => rfl
  | cons name names => exact congrArg ([] :: ·) (segments_written name names)

/-- Different names are written in different ways. -/
theorem rooted_injective {names names' : List (List Char)} (filled : ∀ name ∈ names, name ≠ [])
    (filled' : ∀ name ∈ names', name ≠ []) (same : rooted names = rooted names') : names = names' := by
  have pieces := congrArg Path.segments same
  rw [segments_rooted, segments_rooted, List.cons.injEq] at pieces
  have several (name : List Char) (more : List (List Char)) (some : name ≠ []) :
      [[]] ≠ (name :: more).map escaped := by
    intro none
    exact escaped_ne_nil some (List.cons.inj none).1.symm
  cases names with
  | nil =>
    cases names' with
    | nil => rfl
    | cons name' names' => exact absurd pieces.2 (several _ _ (filled' _ List.mem_cons_self))
  | cons name names =>
    cases names' with
    | nil => exact absurd pieces.2.symm (several _ _ (filled _ List.mem_cons_self))
    | cons name' names' => exact List.map_injective_iff.mpr (fun _ _ => escaped_injective) pieces.2

/-- Without the slashes at its start, what has been built is what is left of the names. -/
theorem dropWhile_path {names : List (List Char)} (above : Bool)
    (filled : ∀ name ∈ names, name ≠ []) :
    '/' :: ((if above then [] else ['/']) ++ written names).dropWhile (· == '/') = rooted names := by
  cases names with
  | nil => cases above <;> rfl
  | cons name names =>
    obtain ⟨c, more, some⟩ := List.exists_cons_of_ne_nil (escaped_ne_nil (filled name List.mem_cons_self))
    have first : c ≠ '/' := by
      rintro rfl
      exact slash_not_mem_escaped name (some ▸ List.mem_cons_self)
    have stops : (c == '/') = false := by simpa using first
    cases above <;> simp [rooted, some, stops]

/-- The path of a specifier is that of the names that are left. -/
theorem resolve_rooted {names : List (List Char)} (filled : ∀ name ∈ names, name ≠ [])
    (dot : ∀ name ∈ names, name ≠ ['.']) (last : names.getLast? ≠ some dots) :
    (Path.resolve true ['/'] (rooted names)).path = rooted (Way.walk names).names := by
  by_cases none : names = []
  · rw [none]
    rfl
  · have start : Path.State.push true ⟨['/'], false⟩ [] true = ⟨Way.root.path, false⟩ := rfl
    have all := pushAll_escaped (s := ⟨Way.root.path, false⟩) (w := .root) rfl dot none last
    have built := List.append_cancel_right (all.trans (Way.path.eq_1 _))
    have left := dropWhile_path (Way.walk names).above (Way.filled_walk filled)
    have several : ¬ names.isEmpty = true := by simpa using none
    unfold Path.resolve
    rw [segments_rooted, if_neg several, Path.pushAll_cons _ (by simpa using none), start]
    exact (congrArg (fun path => '/' :: path.dropWhile (· == '/')) built).trans left

/-! ## The specifier of a path -/

theorem isPlain_of_mem_rooted {names : List (List Char)} {c : Char} (mem : c ∈ rooted names) :
    Path.isPlain c = true := by
  unfold rooted at mem
  split at mem
  · rw [List.mem_singleton.mp mem]
    decide
  · obtain ⟨name, -, mem⟩ := List.mem_flatMap.mp mem
    rcases List.mem_cons.mp mem with rfl | mem
    · decide
    · exact isPlain_of_mem_escaped mem

/-- The URL of a file is read. -/
theorem read_file {path : List Char} (plain : ∀ c ∈ path, Path.isPlain c = true)
    (first : path.head? = some '/') :
    read none (String.ofList ("file://".toList ++ path)) =
      .ok ⟨.file, noAuthority, (Path.resolve true ['/'] path).path, none⟩ := by
  obtain ⟨rest, rfl⟩ := List.head?_eq_some_iff.mp first
  have above : ∀ c ∈ "file://".toList ++ '/' :: rest, 0x20 < c.toNat := by
    have start : ("file://".toList.all fun c => 0x20 < c.toNat) = true := by decide
    rw [List.forall_mem_append]
    refine ⟨fun c mem => of_decide_eq_true (List.all_eq_true.mp start c mem), fun c mem => ?_⟩
    have visible := plain c mem
    simp only [Path.isPlain, Bool.and_eq_true, decide_eq_true_eq] at visible
    exact visible.1.1
  have text : cleaned (String.ofList ("file://".toList ++ '/' :: rest)) =
      "file://".toList ++ '/' :: rest := by
    rw [cleaned, String.toList_ofList, trimWhere_of_forall, List.filter_eq_self]
    · intro c mem
      have code := above c mem
      simp only [Bool.not_eq_true', Bool.or_eq_false_iff, beq_eq_false_iff_ne]
      refine ⟨⟨?_, ?_⟩, ?_⟩ <;> rintro rfl <;> revert code <;> decide
    · intro c mem
      simpa using above c mem
  have mark (c : Char) (other : Path.isPlain c = false) : ∀ d ∈ '/' :: rest, (d != c) = true := by
    intro d mem
    rw [bne_iff_ne]
    rintro rfl
    rw [plain d mem] at other
    cases other
  have noFragment : beforeFragment ("//".toList ++ '/' :: rest) = "//".toList ++ '/' :: rest := by
    have start : "//".toList.all (· != '#') = true := by decide
    refine List.takeWhile_eq_self_iff.mpr ?_
    rw [List.forall_mem_append]
    exact ⟨List.all_eq_true.mp start, mark '#' (by decide)⟩
  have scheme : splitScheme? ("file://".toList ++ '/' :: rest) =
      some ("file".toList, "//".toList ++ '/' :: rest) := rfl
  have host : readFile none ("//".toList ++ '/' :: rest) =
      .ok (withReference .file noAuthority ['/'] ('/' :: rest)) := rfl
  have noQuery : beforeQuery ('/' :: rest) = '/' :: rest ∧ queryOf ('/' :: rest) = none := by
    have plain := mark '?' (by decide)
    refine ⟨List.takeWhile_eq_self_iff.mpr plain, ?_⟩
    rw [queryOf, List.dropWhile_eq_nil_iff.mpr plain]
  unfold read
  dsimp only
  rw [text, scheme]
  dsimp only
  rw [show Scheme.ofName? (String.ofList "file".toList) = some .file from rfl, noFragment]
  dsimp only
  rw [show Option.filter (fun base => base.scheme == .file) (none : Option Specifier) = none from rfl,
    host, withReference, noQuery.1, noQuery.2]
  rfl

/-- The specifier of a path that does not end in dots has the names that are left of the path. -/
theorem ofPath_eq {path : String} (ordinary : (components path.toList).getLast? ≠ some dots) :
    ofPath path =
      .ok ⟨.file, noAuthority, rooted (Way.walk (components path.toList)).names, none⟩ := by
  have known : ∀ name ∈ components path.toList, name ≠ [] ∧ name ≠ ['.'] := by
    intro name mem
    simpa using (List.mem_filter.mp mem).2
  unfold ofPath
  dsimp only
  generalize components path.toList = names at ordinary known
  have url : (if (names.map (percentEncode isPlainSegment)).isEmpty then ['/']
      else (names.map (percentEncode isPlainSegment)).flatMap ('/' :: ·)) = rooted names := by
    rw [List.isEmpty_map, List.flatMap_map]
    rfl
  have first : (rooted names).head? = some '/' := by cases names <;> rfl
  rw [url, read_file (fun _ => isPlain_of_mem_rooted) first,
    resolve_rooted (fun name mem => (known name mem).1) (fun name mem => (known name mem).2) ordinary]

/-! ## Back to a path -/

/-- A name as it stands in a path: it is not empty, not a dot, and has no slash in it. -/
structure IsComponent (name : List Char) : Prop where
  filled : name ≠ []
  dot : name ≠ ['.']
  slash : '/' ∉ name

theorem isComponent_of_mem {path name : List Char} (mem : name ∈ components path) :
    IsComponent name := by
  obtain ⟨piece, kept⟩ := List.mem_filter.mp mem
  have known : name ≠ [] ∧ name ≠ ['.'] := by simpa using kept
  exact ⟨known.1, known.2, not_mem_of_mem_splitAt piece⟩

theorem splitAt_flatMap {name : List Char} {names : List (List Char)} (slash : '/' ∉ name)
    (slashes : ∀ name ∈ names, '/' ∉ name) :
    splitAt '/' (name ++ names.flatMap ('/' :: ·)) = name :: names := by
  induction names generalizing name with
  | nil => rw [List.flatMap_nil, List.append_nil, splitAt_of_not_mem slash]
  | cons name' names ih =>
    rw [List.forall_mem_cons] at slashes
    rw [List.flatMap_cons, List.cons_append, splitAt_append_cons, splitAt_of_not_mem slash,
      ih slashes.1 slashes.2]
    rfl

/-- The names of a path are its components. -/
theorem components_pathOf {names : List (List Char)} (known : ∀ name ∈ names, IsComponent name) :
    components (pathOf names).toList = names := by
  unfold pathOf
  rw [String.toList_ofList]
  cases names with
  | nil => rfl
  | cons name names =>
    have slashes : ∀ x ∈ name :: names, '/' ∉ x := fun x mem => (known x mem).slash
    rw [List.forall_mem_cons] at slashes
    have kept : ∀ x ∈ name :: names, (!(x.isEmpty || decide (x = ['.']))) = true := by
      intro x mem
      simpa using ⟨(known x mem).filled, (known x mem).dot⟩
    unfold components
    rw [List.isEmpty_cons, if_neg Bool.false_ne_true, List.flatMap_cons, List.cons_append,
      show ∀ cs, splitAt '/' ('/' :: cs) = [] :: splitAt '/' cs from fun _ => rfl,
      splitAt_flatMap slashes.1 slashes.2, List.filter_cons_of_neg (by simp), List.filter_eq_self.mpr kept]

/-- Whether a character of a path stands for itself. -/
def isPlainPath (c : Char) : Bool := c == '/' || isPlainSegment c

/-- The path of a specifier is the path of its names with escapes. -/
theorem rooted_eq_percentEncode {names : List (List Char)} (slashes : ∀ name ∈ names, '/' ∉ name) :
    rooted names = percentEncode isPlainPath (pathOf names).toList := by
  have same : ∀ name ∈ names, '/' :: escaped name = percentEncode isPlainPath ('/' :: name) := by
    intro name mem
    have plain : ∀ c ∈ name, isPlainPath c = isPlainSegment c := by
      intro c inside
      have other : c ≠ '/' := by
        rintro rfl
        exact slashes name mem inside
      simp [isPlainPath, other]
    rw [percentEncode, List.flatMap_cons, escaped, percentEncode, List.flatMap_def, List.flatMap_def,
      List.map_congr_left fun c inside => by rw [← plain c inside]]
    rfl
  unfold rooted pathOf
  rw [String.toList_ofList]
  split
  · rfl
  · rw [percentEncode, List.flatMap_assoc, written, List.flatMap_def, List.flatMap_def,
      List.map_congr_left same]
    rfl

theorem percentDecode_rooted {names : List (List Char)} (slashes : ∀ name ∈ names, '/' ∉ name) :
    percentDecode (rooted names) = bytesOf (pathOf names).toList := by
  rw [rooted_eq_percentEncode slashes, percentDecode_percentEncode (by decide)]

/-- Whether a text of more than two characters ends in a letter and a colon or a bar. -/
def endsAsDrive (cs : List Char) : Bool :=
  match cs.reverse with
  | mark :: letter :: _ :: _ => Path.isDriveLetter [letter, mark]
  | _ => false

theorem endsAsDrive_iff {cs : List Char} : endsAsDrive cs = true ↔ ∃ front letter mark,
    cs = front ++ [letter] ++ [mark] ∧ front ≠ [] ∧ Path.isDriveLetter [letter, mark] = true := by
  unfold endsAsDrive
  constructor
  · intro drive
    split at drive
    case h_2 => cases drive
    case h_1 mark letter c more turned =>
      refine ⟨(c :: more).reverse, letter, mark, ?_, by simp, drive⟩
      rw [← List.reverse_reverse cs, turned]
      simp
  · rintro ⟨front, letter, mark, rfl, some, drive⟩
    obtain ⟨c, more, turned⟩ := List.exists_cons_of_ne_nil (mt List.reverse_eq_nil_iff.mp some)
    simpa [turned] using drive

theorem endsInDriveLetter_iff {bytes : List UInt8} : endsInDriveLetter bytes = true ↔
    ∃ front letter mark, bytes = front ++ [letter] ++ [mark] ∧ front ≠ [] ∧
      Path.isDriveLetter [Char.ofNat letter.toNat, Char.ofNat mark.toNat] = true := by
  unfold endsInDriveLetter
  constructor
  · intro drive
    split at drive
    case h_2 => cases drive
    case h_1 mark letter b more turned =>
      refine ⟨(b :: more).reverse, letter, mark, ?_, by simp, drive⟩
      rw [← List.reverse_reverse bytes, turned]
      simp
  · rintro ⟨front, letter, mark, rfl, some, drive⟩
    obtain ⟨b, more, turned⟩ := List.exists_cons_of_ne_nil (mt List.reverse_eq_nil_iff.mp some)
    simpa [turned] using drive

theorem lt_of_isDriveLetter {letter mark : Char} (drive : Path.isDriveLetter [letter, mark] = true) :
    letter.toNat < 128 ∧ mark.toNat < 128 := by
  simp only [Path.isDriveLetter, Bool.and_eq_true, Bool.or_eq_true, beq_iff_eq] at drive
  have plain := (isPlainSegment_iff.mp (isPlainSegment_of_isAlpha drive.1)).1
  simp only [Path.isPlain, Bool.and_eq_true, decide_eq_true_eq] at plain
  refine ⟨by omega, ?_⟩
  rcases drive.2 with rfl | rfl <;> decide

/-- The bytes of a text end as a drive letter does where the text does. -/
theorem endsInDriveLetter_bytesOf (cs : List Char) :
    endsInDriveLetter (bytesOf cs) = endsAsDrive cs := by
  rw [Bool.eq_iff_iff, endsInDriveLetter_iff, endsAsDrive_iff]
  constructor
  · rintro ⟨front, letter, mark, bytes, some, drive⟩
    have small := lt_of_isDriveLetter drive
    rw [toNat_ofNat_byte, toNat_ofNat_byte] at small
    obtain ⟨inside, rfl, rest⟩ := exists_of_bytesOf_concat small.2 bytes
    obtain ⟨start, rfl, front_eq⟩ := exists_of_bytesOf_concat small.1 rest
    refine ⟨start, _, _, rfl, ?_, drive⟩
    rintro rfl
    exact some front_eq.symm
  · rintro ⟨front, letter, mark, rfl, some, drive⟩
    have small := lt_of_isDriveLetter drive
    refine ⟨bytesOf front, UInt8.ofNat letter.toNat, UInt8.ofNat mark.toNat, ?_, ?_, ?_⟩
    · rw [bytesOf_concat small.2, bytesOf_concat small.1]
    · exact fun none => some (bytesOf_injective none)
    · rwa [ofNat_byte small.1, ofNat_byte small.2]

/-- The path that a specifier leads to is that of its names, with a slash behind a path that ends as a
drive letter does. -/
theorem filePath_rooted {names : List (List Char)} (slashes : ∀ name ∈ names, '/' ∉ name) :
    filePath ⟨.file, noAuthority, rooted names, none⟩ = .ok (bytesOf (pathOf names).toList ++
      if endsAsDrive (pathOf names).toList then String.utf8EncodeChar '/' else []) := by
  have here : isLocal ⟨.file, noAuthority, rooted names, none⟩ = true := rfl
  have noHost : noAuthority.host.isEmpty = true := rfl
  unfold filePath
  dsimp only
  rw [here, noHost, percentDecode_rooted slashes, endsInDriveLetter_bytesOf]
  simp only [Bool.not_true, Bool.false_eq_true, if_false]
  split
  · rfl
  · rw [List.append_nil]

/-! ## Spellings of a path -/

/-- Whether a path does not end in the directory above. -/
def IsOrdinary (path : String) : Prop := (components path.toList).getLast? ≠ some dots

/-- The lexical form of a path: slashes are not repeated and none is at the end, there is no dot, and each
pair of dots has taken the name before it away. -/
def lexicalForm (path : String) : String := pathOf (lexical (components path.toList))

theorem components_lexicalForm (path : String) :
    components (lexicalForm path).toList = lexical (components path.toList) :=
  components_pathOf fun _ mem => isComponent_of_mem (Way.mem_lexical mem).1

/-- The specifier of a lexical form has its names. -/
theorem ofPath_lexicalForm (path : String) : ofPath (lexicalForm path) =
    .ok ⟨.file, noAuthority, rooted (lexical (components path.toList)), none⟩ := by
  have noDots : ∀ name ∈ lexical (components path.toList), name ≠ dots :=
    fun _ mem => (Way.mem_lexical mem).2
  have ordinary : (components (lexicalForm path).toList).getLast? ≠ some dots := by
    rw [components_lexicalForm]
    exact fun last => noDots dots (List.mem_of_getLast? last) rfl
  rw [ofPath_eq ordinary, components_lexicalForm, Way.walk_of_forall noDots]

/-- A path that does not end in the directory above has the specifier of its lexical form exactly where
no drive letter would have to be taken away by dots or is written with a colon behind them. The path that
the specifier of a lexical form leads to is this form, with a slash behind it exactly where it ends as a
drive letter does; and different lexical forms have different specifiers. -/
theorem ofPath_lexical {path : String} (ordinary : IsOrdinary path) :
    (ofPath path = ofPath (lexicalForm path) ↔
      Way.root.isSteady (components path.toList) = true) ∧
    (∃ s, ofPath (lexicalForm path) = .ok s ∧
      s.filePath = .ok (bytesOf (lexicalForm path).toList ++
        if endsAsDrive (lexicalForm path).toList then String.utf8EncodeChar '/' else [])) ∧
    ∀ other, ofPath (lexicalForm path) = ofPath (lexicalForm other) →
      lexicalForm path = lexicalForm other := by
  have known {path : String} : ∀ name ∈ lexical (components path.toList), IsComponent name :=
    fun _ mem => isComponent_of_mem (Way.mem_lexical mem).1
  have filled {path : String} : ∀ name ∈ lexical (components path.toList), name ≠ [] :=
    fun name mem => (known name mem).filled
  have injective {names names' : List (List Char)} (filled : ∀ name ∈ names, name ≠ [])
      (filled' : ∀ name ∈ names', name ≠ [])
      (same : (.ok ⟨.file, noAuthority, rooted names, none⟩ : Except LoadError Specifier) =
        .ok ⟨.file, noAuthority, rooted names', none⟩) : names = names' :=
    rooted_injective filled filled' (congrArg Specifier.path (Except.ok.inj same))
  refine ⟨?_, ⟨_, ofPath_lexicalForm path, filePath_rooted fun name mem => (known name mem).slash⟩, ?_⟩
  · rw [← Way.names_walk_iff, ofPath_eq ordinary, ofPath_lexicalForm]
    constructor
    · exact injective (Way.filled_walk fun name mem => (isComponent_of_mem mem).filled) filled
    · exact fun same => by rw [same]
  · intro other same
    rw [ofPath_lexicalForm, ofPath_lexicalForm] at same
    exact congrArg pathOf (injective filled filled same)

/-- A path with dots, repeated slashes and characters that are escaped has the specifier of its lexical
form, which leads to this form. -/
theorem ofPath_lexical_spelling :
    IsOrdinary "//a/../b%20#c/./d/../x?.ts" ∧
      ∃ s, ofPath "//a/../b%20#c/./d/../x?.ts" = .ok s ∧
        s.filePath = .ok (bytesOf "/b%20#c/x?.ts".toList) := by
  have ordinary : IsOrdinary "//a/../b%20#c/./d/../x?.ts" := by
    unfold IsOrdinary
    decide
  have form : lexicalForm "//a/../b%20#c/./d/../x?.ts" = "/b%20#c/x?.ts" := by decide
  obtain ⟨same, ⟨s, read, path⟩, -⟩ := ofPath_lexical ordinary
  refine ⟨ordinary, s, (same.mpr (by decide)).trans read, ?_⟩
  rw [path, form, if_neg (by decide), List.append_nil]

/-- Dots do not take a drive letter away, and a path that ends as one does not lead back to itself. -/
theorem drive_letter_is_kept :
    lexicalForm "/C:/../x" = "/x" ∧ ofPath "/C:/../x" ≠ ofPath "/x" ∧
      ∃ s, ofPath "/a/b:" = .ok s ∧ s.filePath = .ok (bytesOf "/a/b:/".toList) := by
  have kept : ofPath "/C:/../x" = .ok ⟨.file, noAuthority, "/C:/x".toList, none⟩ := rfl
  have other : ofPath "/x" = .ok ⟨.file, noAuthority, "/x".toList, none⟩ := rfl
  refine ⟨by decide, ?_, _, rfl, by decide⟩
  rw [kept, other]
  intro same
  exact absurd (congrArg Specifier.path (Except.ok.inj same)) (by decide)

end ModuleLinker.Specifier
