import ModuleLinker.Proofs.Cache.Requests

/-!
# Listing and looking up

Whatever files are in the directory of a cache, listing shows those whose names are read as a key. A key
can be written in more ways than the cache writes it, with small digits, escapes that are not needed or
other cuts; the way the cache does it can be told from the names (`isKeyPath`). An item whose file has
such names is where its module is looked up, and no other one is (`Store.listing_and_lookup`).
-/

set_option autoImplicit false

namespace ModuleLinker.Cache

open Text Files

/-! ## Names that are cut as a key is -/

/-- Whether names are as long as those of a key behind the first one: every directory has a whole piece,
and so has the file. -/
def areWhole : List String → Bool
  | [] => false
  | [file] => file.length = pieceLength
  | directory :: more => directory.length = pieceLength + 1 && areWhole more

/-- Whether names are as long as those of a key: a single one has a piece at most, and of several the
first is that of a directory with a piece that is not empty. -/
def isCut : List String → Bool
  | [] => false
  | [file] => file.length ≤ pieceLength
  | directory :: more =>
    1 < directory.length && directory.length ≤ pieceLength + 1 && areWhole more

/-- Whether names are as the cache writes those of a key. -/
def isKeyPath (path : List String) : Bool :=
  isCut path && (joinedKey? path).any (isEncoded isPlainKey)

/-- The names of several pieces are more than one. -/
theorem exists_names_cons_cons (piece piece' : List Char) (texts : List (List Char)) :
    ∃ name more,
      names (piece :: piece' :: texts) = String.ofList (piece ++ [directoryMark]) :: name :: more ∧
      names (piece' :: texts) = name :: more := by
  have filled : names (piece' :: texts) ≠ [] := by
    rw [← List.length_pos_iff, length_names]
    exact Nat.succ_pos _
  obtain ⟨name, more, same⟩ := List.exists_cons_of_ne_nil filled
  exact ⟨name, more, by rw [names_cons_cons, same], same⟩

theorem areWhole_names (texts : List (List Char)) :
    areWhole (names texts) = true ↔ texts ≠ [] ∧ ∀ piece ∈ texts, piece.length = pieceLength := by
  induction texts with
  | nil => simp [names, areWhole]
  | cons piece texts ih =>
    cases texts with
    | nil => simp [names, areWhole]
    | cons piece' texts =>
      obtain ⟨name, more, several, rest⟩ := exists_names_cons_cons piece piece' texts
      rw [rest] at ih
      rw [several, areWhole, Bool.and_eq_true, ih]
      · simp
      · exact List.cons_ne_nil name more

theorem isCut_names_cons {piece : List Char} {texts : List (List Char)} (several : texts ≠ []) :
    isCut (names (piece :: texts)) = true ↔
      piece ≠ [] ∧ piece.length ≤ pieceLength ∧ ∀ piece ∈ texts, piece.length = pieceLength := by
  obtain ⟨piece', texts, rfl⟩ := List.exists_cons_of_ne_nil several
  obtain ⟨name, more, names, rest⟩ := exists_names_cons_cons piece piece' texts
  have whole := areWhole_names (piece' :: texts)
  rw [rest] at whole
  rw [names, isCut, Bool.and_eq_true, Bool.and_eq_true, whole]
  · simp [← List.length_pos_iff, and_assoc]
  · exact List.cons_ne_nil name more

/-- Names that are read as an encoded key are those of its pieces. -/
theorem exists_of_joinedKey? {path : List String} {key : List Char} (read : joinedKey? path = some key) :
    ∃ texts, texts ≠ [] ∧ path = names texts ∧ texts.flatten = key := by
  induction path generalizing key with
  | nil => cases read
  | cons name path ih =>
    cases path with
    | nil =>
      rw [joinedKey?] at read
      split at read
      · cases read
      · cases read
        exact ⟨[name.toList], List.cons_ne_nil _ _, by rw [names, String.ofList_toList], by simp⟩
    | cons name' path =>
      rw [joinedKey?] at read
      · split at read
        case isFalse => cases read
        case isTrue marked =>
          obtain ⟨front, split⟩ := List.getLast?_eq_some_iff.mp marked
          obtain ⟨rest, behind, rfl⟩ := Option.map_eq_some_iff.mp read
          obtain ⟨texts, some, same, rfl⟩ := ih behind
          obtain ⟨piece, texts, rfl⟩ := List.exists_cons_of_ne_nil some
          refine ⟨front :: piece :: texts, List.cons_ne_nil _ _, ?_, ?_⟩
          · rw [names_cons_cons, ← same, ← split, String.ofList_toList]
          · rw [split, List.dropLast_concat, List.flatten_cons]
      · exact List.cons_ne_nil _ _

/-! ## Keys -/

/-- Whole pieces are found again in what they make up. -/
theorem pieces_flatten {texts : List (List Char)} (whole : ∀ piece ∈ texts, piece.length = pieceLength) :
    pieces texts.flatten = texts := by
  induction texts with
  | nil => exact pieces_nil
  | cons piece texts ih =>
    rw [List.forall_mem_cons] at whole
    have filled : piece ++ texts.flatten ≠ [] := by
      intro none
      rw [(List.append_eq_nil_iff.mp none).1] at whole
      cases whole.1
    rw [List.flatten_cons, pieces_of_ne_nil filled, ← whole.1, List.take_left, List.drop_left, ih whole.2]

theorem length_flatten_whole {texts : List (List Char)}
    (whole : ∀ piece ∈ texts, piece.length = pieceLength) :
    texts.flatten.length = pieceLength * texts.length := by
  induction texts with
  | nil => rfl
  | cons piece texts ih =>
    rw [List.forall_mem_cons] at whole
    rw [List.flatten_cons, List.length_append, ih whole.2, whole.1, List.length_cons, Nat.mul_succ,
      Nat.add_comm]

theorem isCut_encodeKey (text : String) : isCut (encodeKey text) = true := by
  have positive : 0 < pieceLength := by decide
  rw [encodeKey_eq]
  unfold keyPieces
  generalize percentEncode isPlainKey text.toList = encoded
  dsimp only
  split
  case isTrue short => simpa [names, isCut] using short
  case isFalse long =>
    rw [Nat.not_le] at long
    have small := Nat.mod_lt encoded.length positive
    have behind (n : Nat) (less : n < encoded.length) : pieces (encoded.drop n) ≠ [] := by
      intro none
      have empty := congrArg List.flatten none
      rw [flatten_pieces, List.flatten_nil, List.drop_eq_nil_iff] at empty
      omega
    split
    case isTrue head =>
      have filled : encoded ≠ [] := List.ne_nil_of_length_pos (by omega)
      have whole : ∀ piece ∈ pieces encoded, piece.length = pieceLength :=
        fun _ mem => length_of_mem_pieces mem head
      rw [pieces_of_ne_nil filled, List.forall_mem_cons] at whole
      rw [head, List.drop_zero, pieces_of_ne_nil filled, isCut_names_cons (behind _ long)]
      exact ⟨List.ne_nil_of_length_pos (by omega), whole.1.le, whole.2⟩
    case isFalse head =>
      rw [isCut_names_cons (behind _ (by omega))]
      refine ⟨List.ne_nil_of_length_pos ?_, ?_, fun _ mem => length_of_mem_pieces mem ?_⟩
      · rw [List.length_take]
        omega
      · rw [List.length_take]
        omega
      · rw [List.length_drop]
        exact Nat.sub_mod_eq_zero_of_mod_eq (by rw [Nat.mod_mod])

/-- Names that are cut as a key is have the pieces of the key that they make up. -/
theorem eq_keyPieces {text : String} {texts : List (List Char)} (some : texts ≠ [])
    (flat : texts.flatten = percentEncode isPlainKey text.toList) (cut : isCut (names texts) = true) :
    texts = keyPieces text := by
  obtain ⟨piece, texts, rfl⟩ := List.exists_cons_of_ne_nil some
  unfold keyPieces
  rw [← flat]
  dsimp only
  by_cases single : texts = []
  · subst single
    have short : piece.length ≤ pieceLength := by simpa [names, isCut] using cut
    simp [short]
  · obtain ⟨filled, short, whole⟩ := (isCut_names_cons single).mp cut
    have positive := List.length_pos_iff.mpr filled
    have several := List.length_pos_iff.mpr single
    have length : (piece :: texts).flatten.length = piece.length + pieceLength * texts.length := by
      rw [List.flatten_cons, List.length_append, length_flatten_whole whole]
    have long := Nat.le_mul_of_pos_right pieceLength several
    rw [if_neg (by omega), length, Nat.add_mul_mod_self_left]
    rcases Nat.lt_or_eq_of_le short with less | full
    · rw [Nat.mod_eq_of_lt less, if_neg (by omega), List.flatten_cons, List.take_left, List.drop_left,
        pieces_flatten whole]
    · rw [full, Nat.mod_self, if_pos rfl, List.drop_zero,
        pieces_flatten (List.forall_mem_cons.mpr ⟨full, whole⟩)]

theorem toNat_lt_of_isPlainKey {c : Char} (plain : isPlainKey c = true) : c.toNat < 128 := by
  have written : c ∈ percentEncode isPlainKey [c] := by simp [percentEncode, plain]
  exact Nat.lt_succ_of_le (Char.utf8Size_eq_one_iff.mp (utf8Size_of_mem_percentEncode written))

/-- Names that are read as the key of a text are those of its key where they are written as the cache
writes them. -/
theorem eq_encodeKey_iff {path : List String} {text : String} (read : decodeKey? path = some text) :
    path = encodeKey text ↔ isKeyPath path = true := by
  unfold decodeKey? at read
  obtain ⟨key, joined, read⟩ := Option.bind_eq_some_iff.mp read
  obtain ⟨cs, decoded, rfl⟩ := Option.map_eq_some_iff.mp read
  have encoded : isEncoded isPlainKey key = true ↔ key = percentEncode isPlainKey cs :=
    isEncoded_iff (fun _ => toNat_lt_of_isPlainKey) (by decide) (bytesOf_of_ofBytes? decoded)
  unfold isKeyPath
  rw [joined, Option.any_some, Bool.and_eq_true, encoded]
  constructor
  · intro same
    refine ⟨same ▸ isCut_encodeKey _, ?_⟩
    have back := joinedKey?_names (keyPieces_ne_nil (String.ofList cs)) fun _ => mark_not_mem_keyPieces
    rw [← encodeKey_eq, ← same, joined, flatten_keyPieces, String.toList_ofList] at back
    exact Option.some.inj back
  · rintro ⟨cut, whole⟩
    obtain ⟨texts, some, rfl, flat⟩ := exists_of_joinedKey? joined
    rw [encodeKey_eq, ← eq_keyPieces some (by rw [flat, whole, String.toList_ofList]) cut]

namespace Store

/-! ## Items -/

/-- What is listed for a file, by its names below the place of the files. -/
structure IsItemOf (c : Store) (v : Volume) (place below : List String) (item : Item) : Prop where
  file : ∃ content, v.get? (place ++ below) = some (.file content) ∧ item.size = content.size
  read : decodeKey? below = some item.specifier
  path : item.path = joinAll c.base below

variable {c : Store} {v : Volume} {place : List String}

theorem path_eq_iff (c : Store) {below below' : List String} (h : ∀ name ∈ below, IsName name)
    (h' : ∀ name ∈ below', IsName name) :
    joinAll c.base below = joinAll c.base below' ↔ below = below' := by
  constructor
  · intro same
    have names := congrArg Volume.names same
    rw [(joinAll_spec h (isClosed_base c)).2.2, (joinAll_spec h' (isClosed_base c)).2.2] at names
    exact List.append_cancel_left names
  · exact congrArg (joinAll c.base)

theorem item?_eq_some {file : List String × Nat} {item : Item} :
    c.item? file = some item ↔
      decodeKey? file.1 = some item.specifier ∧ item.path = joinAll c.base file.1 ∧ item.size = file.2 := by
  unfold item?
  rw [Option.map_eq_some_iff]
  constructor
  · rintro ⟨text, read, rfl⟩
    exact ⟨read, rfl, rfl⟩
  · rintro ⟨read, path, size⟩
    exact ⟨item.specifier, read, by rw [← path, ← size]⟩

theorem mem_listing (table : v.IsTable) {item : Item} :
    item ∈ c.listing (v.filesFrom place) ↔ ∃ below, IsItemOf c v place below item := by
  rw [listing, List.mem_mergeSort, List.mem_filterMap]
  constructor
  · rintro ⟨⟨below, size⟩, mem, same⟩
    obtain ⟨read, path, rfl⟩ := item?_eq_some.mp same
    exact ⟨below, ((Volume.mem_filesFrom table).mp mem).2, read, path⟩
  · rintro ⟨below, ⟨content, file, size⟩, read, path⟩
    have some : below ≠ [] := by
      rintro rfl
      cases read
    exact ⟨(below, item.size), (Volume.mem_filesFrom table).mpr ⟨some, content, file, size⟩,
      item?_eq_some.mpr ⟨read, path, rfl⟩⟩

/-- No file is listed twice. -/
theorem path_ne_of_listing (table : v.IsTable)
    (named : ∀ below content, v.get? (place ++ below) = some (.file content) →
      ∀ name ∈ below, IsName name) :
    (c.listing (v.filesFrom place)).Pairwise fun a b => a.path ≠ b.path := by
  apply (List.mergeSort_perm ..).pairwise_iff (fun ne => Ne.symm ne) |>.mpr
  rw [List.pairwise_filterMap]
  have places := List.pairwise_map.mp (Volume.nodup_filesFrom table place)
  apply List.Pairwise.imp_of_mem ?_ places
  intro file file' mem mem' other item same item' same' shared
  obtain ⟨-, content, there, -⟩ := (Volume.mem_filesFrom table).mp mem
  obtain ⟨-, content', there', -⟩ := (Volume.mem_filesFrom table).mp mem'
  obtain ⟨-, path, -⟩ := item?_eq_some.mp same
  obtain ⟨-, path', -⟩ := item?_eq_some.mp same'
  rw [path, path', path_eq_iff c (named _ _ there) (named _ _ there')] at shared
  exact other shared

/-- What is listed for a file is looked up there where the file has the names that the cache gives it. -/
theorem IsItemOf.path_eq_iff {below : List String} {item : Item} (h : IsItemOf c v place below item)
    (named : ∀ name ∈ below, IsName name) (s : Specifier) :
    item.path = c.path s ↔ item.specifier = s.text ∧ isKeyPath below = true := by
  rw [h.path, Store.path, Store.path_eq_iff c named fun _ mem => isName_encodeKey s mem]
  constructor
  · intro key
    have read := h.read
    rw [key, decodeKey?_encodeKey, Option.some_inj] at read
    exact ⟨read.symm, (eq_encodeKey_iff h.read).mp (by rw [key, read])⟩
  · rintro ⟨same, key⟩
    rw [← same]
    exact (eq_encodeKey_iff h.read).mpr key

/-- Whatever files are in the directory of a cache, those whose names are read as a key are listed, each
once and in the order of the specifiers, and nothing else is. The names are those that the cache gives the
specifier they are read as exactly where they are written and cut as the cache does it, and then the
module is looked up in the file that is listed; otherwise it is looked up elsewhere. A file in which a
module is looked up is listed. -/
theorem listing_and_lookup (table : v.IsTable) (base : v.find c.base = .ok (place, .directory))
    (named : ∀ below content, v.get? (place ++ below) = some (.file content) →
      ∀ name ∈ below, IsName name) :
    ∃ items, (c.entries : ExceptT LoadError (StateM Volume) (List Item)) v = (.ok items, v) ∧
      (c.size : ExceptT LoadError (StateM Volume) Nat) v = (.ok (items.map Item.size).sum, v) ∧
      items.Pairwise (fun a b => a.specifier ≤ b.specifier ∧ a.path ≠ b.path) ∧
      (∀ item, item ∈ items ↔ ∃ below, IsItemOf c v place below item) ∧
      (∀ below item, IsItemOf c v place below item →
        (below = encodeKey item.specifier ↔ isKeyPath below = true) ∧
        ∀ s : Specifier, item.path = c.path s ↔ item.specifier = s.text ∧ isKeyPath below = true) ∧
      ∀ (s : Specifier) (content : ByteArray),
        v.get? (place ++ encodeKey s.text) = some (.file content) →
          ⟨s.text, c.path s, content.size⟩ ∈ items := by
  have listed : (c.entries : ExceptT LoadError (StateM Volume) (List Item)) v =
      (.ok (c.listing (v.filesFrom place)), v) := by
    rw [entries_apply]
    simp only [Volume.filesBelow, base, bind, Except.bind]
    rfl
  refine ⟨_, listed, ?_, ?_, fun item => mem_listing table, ?_, ?_⟩
  · unfold Store.size
    rw [bind_apply, listed, ← totalSize_eq_sum]
    rfl
  · exact (sorted_listing c _).and (path_ne_of_listing table named)
  · intro below item listed
    obtain ⟨content, file, -⟩ := listed.file
    exact ⟨eq_encodeKey_iff listed.read, listed.path_eq_iff (named below content file)⟩
  · intro s content file
    rw [mem_listing table]
    refine ⟨encodeKey s.text, ⟨content, file, rfl⟩, ?_, ?_⟩
    · rw [decodeKey?_encodeKey]
    · rw [Store.path]

/-- A cache with a file that another program has put there, under a key with small digits, and the one
that the cache has for the same module. -/
def foreignVolume : Volume where
  entries := [(["v1"], .directory), (["v1", "https%3a%2f%2fh%2fa.js"], .file "x".toUTF8),
    (["v1", "https%3A%2F%2Fh%2Fa.js"], .file "y".toUTF8)]
  start := []
  limits := .none

theorem isTable_foreignVolume : foreignVolume.IsTable := by
  unfold Volume.IsTable
  decide

theorem isName_foreignVolume {below : List String} {content : ByteArray}
    (file : foreignVolume.get? (["v1"] ++ below) = some (.file content)) :
    ∀ name ∈ below, IsName name := by
  have mem := (isTable_foreignVolume.mem_entries (List.cons_ne_nil _ _)).mpr file
  simp only [foreignVolume, List.mem_cons, List.not_mem_nil, Prod.mk.injEq, List.cons.injEq,
    true_and, reduceCtorEq, and_false, false_or, or_false] at mem
  rcases mem with ⟨rfl, -⟩ | ⟨rfl, -⟩
  · intro name mem
    rw [List.mem_singleton.mp mem]
    constructor <;> decide
  · intro name mem
    rw [List.mem_singleton.mp mem]
    constructor <;> decide

/-- The foreign file is listed as the module, which is looked up in another one. -/
theorem listing_and_lookup_foreign :
    (∃ items, (entries ⟨"/"⟩ : ExceptT LoadError (StateM Volume) (List Item)) foreignVolume =
        (.ok items, foreignVolume) ∧ ∃ item ∈ items, item.path = "/v1/https%3a%2f%2fh%2fa.js" ∧
          item.specifier = "https://h/a.js") ∧
      isKeyPath ["https%3a%2f%2fh%2fa.js"] = false := by
  have base : foreignVolume.find (Store.base ⟨"/"⟩) = .ok (["v1"], .directory) :=
    Volume.find_directory (by decide) (by decide) rfl
  obtain ⟨items, listed, -, -, mem, -, -⟩ :=
    listing_and_lookup isTable_foreignVolume base fun _ _ => isName_foreignVolume
  refine ⟨⟨items, listed, ?_⟩, by decide⟩
  refine ⟨⟨"https://h/a.js", "/v1/https%3a%2f%2fh%2fa.js", "x".toUTF8.size⟩, ?_, rfl, rfl⟩
  exact (mem _).mpr ⟨["https%3a%2f%2fh%2fa.js"], ⟨_, rfl, rfl⟩, by decide, by decide⟩

/-- A name that the cache gives no module is read as a key. -/
theorem decodeKey?_smallDigits :
    decodeKey? ["https%3a%2f%2fh%2fa.js"] = some "https://h/a.js" ∧
      encodeKey "https://h/a.js" ≠ ["https%3a%2f%2fh%2fa.js"] := by
  constructor <;> decide

end Store

end ModuleLinker.Cache
