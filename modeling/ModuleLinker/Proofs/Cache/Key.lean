import Mathlib
import ModuleLinker.Cache.Key
import ModuleLinker.Proofs.Text.Percent

/-!
# Cache keys

A key is read back (`decodeKey?_encodeKey`), so that different texts have different keys. A directory
on the way to a file ends in a mark that no file ends in, so that no key starts with another one
(`eq_of_encodeKey_isPrefix`): no file of the cache stands where another one needs a directory.
-/

set_option autoImplicit false

namespace ModuleLinker.Cache

open Text

/-! ## Names -/

theorem names_cons_cons (piece piece' : List Char) (more : List (List Char)) :
    names (piece :: piece' :: more) =
      String.ofList (piece ++ [directoryMark]) :: names (piece' :: more) := rfl

@[simp]
theorem length_names (texts : List (List Char)) : (names texts).length = texts.length := by
  induction texts with
  | nil => rfl
  | cons piece texts ih =>
    cases texts with
    | nil => rfl
    | cons piece' texts =>
      rw [names_cons_cons, List.length_cons, ih]
      rfl

/-- Whether a name is that of a directory. -/
def isDirectoryName (name : String) : Bool := name.toList.getLast? = some directoryMark

theorem isDirectoryName_mark (piece : List Char) :
    isDirectoryName (String.ofList (piece ++ [directoryMark])) = true := by
  simp [isDirectoryName]

theorem isDirectoryName_of_not_mem {piece : List Char} (h : directoryMark ∉ piece) :
    isDirectoryName (String.ofList piece) = false := by
  unfold isDirectoryName
  rw [String.toList_ofList, decide_eq_false_iff_not]
  intro last
  exact h (List.mem_of_getLast? last)

/-- All names but the last are those of directories. -/
theorem isDirectoryName_of_names {texts : List (List Char)} {front back : List String}
    (split : names texts = front ++ back) (some : back ≠ []) {name : String} (mem : name ∈ front) :
    isDirectoryName name = true := by
  induction texts generalizing front with
  | nil =>
    have none := (List.append_eq_nil_iff.mp split.symm).1
    rw [none] at mem
    cases mem
  | cons piece texts ih =>
    cases texts with
    | nil =>
      cases front with
      | nil => cases mem
      | cons first front =>
        have rest := (List.cons.inj split).2
        exact absurd (List.append_eq_nil_iff.mp rest.symm).2 some
    | cons piece' texts =>
      cases front with
      | nil => cases mem
      | cons first front =>
        rw [names_cons_cons, List.cons_append, List.cons.injEq] at split
        obtain ⟨rfl, split⟩ := split
        rcases List.mem_cons.mp mem with rfl | mem
        · exact isDirectoryName_mark piece
        · exact ih split mem

/-- The last name is not that of a directory. -/
theorem isDirectoryName_getLast {texts : List (List Char)} (h : ∀ piece ∈ texts, directoryMark ∉ piece)
    {name : String} (last : (names texts).getLast? = some name) : isDirectoryName name = false := by
  induction texts with
  | nil => cases last
  | cons piece texts ih =>
    cases texts with
    | nil =>
      cases last
      exact isDirectoryName_of_not_mem (h piece List.mem_cons_self)
    | cons piece' texts =>
      rw [names_cons_cons, List.getLast?_cons_of_ne_nil] at last
      · exact ih (fun piece mem => h piece (List.mem_cons_of_mem _ mem)) last
      · rw [← List.length_pos_iff, length_names, List.length_cons]
        exact Nat.succ_pos _

/-- Names are read back to the text they were cut from. -/
theorem joinedKey?_names {texts : List (List Char)} (some : texts ≠ [])
    (h : ∀ piece ∈ texts, directoryMark ∉ piece) :
    joinedKey? (names texts) = .some texts.flatten := by
  induction texts with
  | nil => exact absurd rfl some
  | cons piece texts ih =>
    have last := isDirectoryName_of_not_mem (h piece List.mem_cons_self)
    cases texts with
    | nil =>
      rw [isDirectoryName, String.toList_ofList, decide_eq_false_iff_not] at last
      simp [names, joinedKey?, last]
    | cons piece' texts =>
      have rest := ih (List.cons_ne_nil _ _) fun piece mem => h piece (List.mem_cons_of_mem _ mem)
      rw [names_cons_cons]
      generalize more : names (piece' :: texts) = tail at rest
      cases tail with
      | nil =>
        have length := congrArg List.length more
        rw [length_names] at length
        cases length
      | cons name tail => simp [joinedKey?, rest]

/-! ## Pieces -/

theorem pieces_nil : pieces [] = [] := by
  rw [pieces]
  rfl

theorem pieces_of_ne_nil {cs : List Char} (some : cs ≠ []) :
    pieces cs = cs.take pieceLength :: pieces (cs.drop pieceLength) := by
  rw [pieces, if_neg (by simpa using some)]

theorem flatten_pieces (cs : List Char) : (pieces cs).flatten = cs := by
  induction cs using pieces.induct with
  | case1 cs none =>
    obtain rfl : cs = [] := by simpa using none
    rw [pieces_nil]
    rfl
  | case2 cs some ih =>
    rw [pieces_of_ne_nil (by simpa using some), List.flatten_cons, ih, List.take_append_drop]

theorem length_of_mem_pieces {cs piece : List Char} (mem : piece ∈ pieces cs)
    (whole : cs.length % pieceLength = 0) : piece.length = pieceLength := by
  induction cs using pieces.induct with
  | case1 cs none =>
    obtain rfl : cs = [] := by simpa using none
    rw [pieces_nil] at mem
    cases mem
  | case2 cs some ih =>
    have positive := List.length_pos_iff.mpr (by simpa using some : cs ≠ [])
    have long : pieceLength ≤ cs.length := Nat.le_of_dvd positive (Nat.dvd_of_mod_eq_zero whole)
    rw [pieces_of_ne_nil (by simpa using some), List.mem_cons] at mem
    rcases mem with rfl | mem
    · rw [List.length_take, Nat.min_eq_left long]
    · apply ih mem
      rw [List.length_drop, Nat.mod_eq_sub_mod long] at *
      exact whole

/-! ## Keys -/

/-- The pieces that the key of a text is made of. -/
def keyPieces (text : String) : List (List Char) :=
  let encoded := percentEncode isPlainKey text.toList
  if encoded.length ≤ pieceLength then [encoded]
  else
    let head := encoded.length % pieceLength
    let rest := pieces (encoded.drop head)
    if head = 0 then rest else encoded.take head :: rest

theorem encodeKey_eq (text : String) : encodeKey text = names (keyPieces text) := by
  unfold encodeKey keyPieces
  dsimp only
  split <;> rfl

theorem flatten_keyPieces (text : String) :
    (keyPieces text).flatten = percentEncode isPlainKey text.toList := by
  unfold keyPieces
  dsimp only
  split
  · simp
  · split
    case isTrue whole => rw [whole, List.drop_zero, flatten_pieces]
    case isFalse => rw [List.flatten_cons, flatten_pieces, List.take_append_drop]

/-- The pieces of a key are not empty, unless the text is, and not too long for a name. -/
theorem length_of_mem_keyPieces {text : String} {piece : List Char} (mem : piece ∈ keyPieces text) :
    piece.length ≤ pieceLength ∧
      (text.toList ≠ [] → 0 < piece.length) ∧
      (keyPieces text ≠ [piece] → (keyPieces text).getLast? = some piece →
        piece.length = pieceLength) := by
  have filled : text.toList ≠ [] → 0 < (percentEncode isPlainKey text.toList).length := by
    intro some
    rw [List.length_pos_iff]
    intro none
    exact some (percentEncode_injective (by decide) (none.trans (by rfl)))
  unfold keyPieces at mem ⊢
  dsimp only at mem ⊢
  generalize percentEncode isPlainKey text.toList = encoded at mem filled
  split at mem
  case isTrue short =>
    rw [List.mem_singleton.mp mem, if_pos short]
    exact ⟨short, filled, fun other => absurd rfl other⟩
  case isFalse long =>
    have whole : (encoded.drop (encoded.length % pieceLength)).length % pieceLength = 0 := by
      rw [List.length_drop]
      exact Nat.sub_mod_eq_zero_of_mod_eq (by rw [Nat.mod_mod])
    have full (piece : List Char)
        (mem : piece ∈ pieces (encoded.drop (encoded.length % pieceLength))) :
        piece.length = pieceLength := length_of_mem_pieces mem whole
    have positive : 0 < pieceLength := by decide
    rw [if_neg long]
    split at mem
    case isTrue head =>
      have length := full piece mem
      exact ⟨length.le, fun _ => length ▸ positive, fun _ _ => length⟩
    case isFalse head =>
      have rest : pieces (encoded.drop (encoded.length % pieceLength)) ≠ [] := by
        intro none
        have empty := congrArg List.flatten none
        rw [flatten_pieces, List.flatten_nil, List.drop_eq_nil_iff] at empty
        have := Nat.mod_lt encoded.length positive
        omega
      rw [if_neg head]
      have small := Nat.mod_lt encoded.length positive
      rcases List.mem_cons.mp mem with rfl | mem
      · rw [List.length_take]
        refine ⟨by omega, fun _ => by omega, ?_⟩
        intro _ last
        rw [List.getLast?_cons_of_ne_nil rest] at last
        rw [← List.length_take]
        exact full _ (List.mem_of_getLast? last)
      · have length := full piece mem
        exact ⟨length.le, fun _ => length ▸ positive, fun _ _ => length⟩

/-- The characters of a key, besides the marks of directories. -/
theorem mem_keyPieces {text : String} {piece : List Char} (mem : piece ∈ keyPieces text) {c : Char}
    (inside : c ∈ piece) : c ∈ percentEncode isPlainKey text.toList := by
  rw [← flatten_keyPieces]
  exact List.mem_flatten.mpr ⟨piece, mem, inside⟩

theorem not_mem_keyPieces {c : Char} (escaped : isPlainKey c = false)
    (other : c ∉ "%0123456789ABCDEF".toList) {text : String} {piece : List Char}
    (mem : piece ∈ keyPieces text) : c ∉ piece := by
  intro inside
  exact not_mem_percentEncode _ escaped other (mem_keyPieces mem inside)

/-- The pieces of a key do not have the mark of directories in them. -/
theorem mark_not_mem_keyPieces {text : String} {piece : List Char} (mem : piece ∈ keyPieces text) :
    directoryMark ∉ piece := not_mem_keyPieces (by decide) (by decide) mem

theorem keyPieces_ne_nil (text : String) : keyPieces text ≠ [] := by
  intro none
  have flat := flatten_keyPieces text
  rw [none, List.flatten_nil] at flat
  unfold keyPieces at none
  rw [← flat] at none
  cases none

theorem encodeKey_ne_nil (text : String) : encodeKey text ≠ [] := by
  intro none
  have length := congrArg List.length none
  rw [encodeKey_eq, length_names] at length
  exact keyPieces_ne_nil text (List.length_eq_zero_iff.mp length)

/-- A key is read back to the text it is the key of. -/
theorem decodeKey?_encodeKey (text : String) : decodeKey? (encodeKey text) = some text := by
  rw [encodeKey_eq, decodeKey?, joinedKey?_names (keyPieces_ne_nil text) fun _ => mark_not_mem_keyPieces,
    flatten_keyPieces]
  rw [Option.bind_some, percentDecode_percentEncode (by decide), ofBytes?_bytesOf, Option.map_some,
    String.ofList_toList]

/-- Texts are told apart by their keys. -/
theorem encodeKey_injective {text text' : String} (same : encodeKey text = encodeKey text') :
    text = text' := by
  have decoded := congrArg decodeKey? same
  rw [decodeKey?_encodeKey, decodeKey?_encodeKey] at decoded
  exact Option.some.inj decoded

/-- The names on the way to a file are those of directories. -/
theorem isDirectoryName_of_mem_front {text : String} {front back : List String}
    (split : encodeKey text = front ++ back) (some : back ≠ []) {name : String} (mem : name ∈ front) :
    isDirectoryName name = true := by
  rw [encodeKey_eq] at split
  exact isDirectoryName_of_names split some mem

/-- The name of a file is not that of a directory. -/
theorem isDirectoryName_of_last {text : String} {front : List String} {name : String}
    (split : encodeKey text = front ++ [name]) : isDirectoryName name = false := by
  have last : (names (keyPieces text)).getLast? = some name := by
    rw [← encodeKey_eq, split, List.getLast?_concat]
  exact isDirectoryName_getLast (fun _ => mark_not_mem_keyPieces) last

/-- No key starts with that of another text. -/
theorem eq_of_encodeKey_isPrefix {text text' : String} (h : encodeKey text <+: encodeKey text') :
    text = text' := by
  obtain ⟨rest, split⟩ := h
  cases rest with
  | nil => exact encodeKey_injective ((List.append_nil _).symm.trans split)
  | cons name rest =>
    -- The file of one text would be a directory on the way to that of the other.
    have last := (List.dropLast_append_getLast (encodeKey_ne_nil text)).symm
    have isFile := isDirectoryName_of_last last
    have isDirectory := isDirectoryName_of_mem_front split.symm (List.cons_ne_nil name rest)
      (List.getLast_mem (encodeKey_ne_nil text))
    rw [isFile] at isDirectory
    cases isDirectory

/-! ## The names of a key -/

theorem mem_names {texts : List (List Char)} {name : String} (mem : name ∈ names texts) :
    ∃ piece ∈ texts, (name = String.ofList piece ∧ texts.getLast? = some piece) ∨
      name = String.ofList (piece ++ [directoryMark]) := by
  induction texts with
  | nil => cases mem
  | cons piece texts ih =>
    cases texts with
    | nil =>
      rw [names, List.mem_singleton] at mem
      exact ⟨piece, List.mem_cons_self, .inl ⟨mem, rfl⟩⟩
    | cons piece' texts =>
      rw [names_cons_cons, List.mem_cons] at mem
      rcases mem with rfl | mem
      · exact ⟨piece, List.mem_cons_self, .inr rfl⟩
      · obtain ⟨found, here, name⟩ := ih mem
        refine ⟨found, List.mem_cons_of_mem _ here, name.imp (fun last => ⟨last.1, ?_⟩) id⟩
        rw [List.getLast?_cons_of_ne_nil (List.cons_ne_nil _ _)]
        exact last.2

/-- A text of characters of one byte has as many bytes as characters. -/
theorem utf8ByteSize_ofList {cs : List Char} (h : ∀ c ∈ cs, c.utf8Size = 1) :
    (String.ofList cs).utf8ByteSize = cs.length := by
  induction cs with
  | nil => rfl
  | cons c cs ih =>
    rw [← List.singleton_append, String.ofList_append, String.utf8ByteSize_append,
      ih fun c mem => h c (List.mem_cons_of_mem _ mem)]
    have one : (String.ofList [c]).utf8ByteSize = c.utf8Size := String.utf8ByteSize_singleton
    rw [one, h c List.mem_cons_self, List.length_append, List.length_singleton]

theorem utf8Size_of_mem_percentEncode {cs : List Char} {c : Char}
    (mem : c ∈ percentEncode isPlainKey cs) : c.utf8Size = 1 := by
  have small : c.toNat ≤ 127 → c.utf8Size = 1 := Char.utf8Size_eq_one_iff.mpr
  apply small
  rcases mem_percentEncode mem with plain | mem
  · unfold isPlainKey at plain
    rw [Bool.or_eq_true] at plain
    rcases plain with plain | mem
    · simp only [Char.isAlphanum, Char.isAlpha, Char.isUpper, Char.isLower, Char.isDigit,
        Bool.or_eq_true, Bool.and_eq_true, decide_eq_true_eq, UInt32.le_iff_toNat_le] at plain
      have value : c.toNat = c.val.toNat := rfl
      have bounds : 'Z'.val.toNat = 90 ∧ 'z'.val.toNat = 122 ∧ '9'.val.toNat = 57 := by decide
      omega
    · have all : "-_.~".toList.all (·.toNat ≤ 127) = true := by decide
      simpa using List.all_eq_true.mp all c (by simpa using mem)
  · have all : "%0123456789ABCDEF".toList.all (·.toNat ≤ 127) = true := by decide
    simpa using List.all_eq_true.mp all c mem

/-- What a file system has to know of a name in a key. -/
structure IsKeyName (name : String) : Prop where
  filled : name ≠ ""
  dot : name ≠ "."
  dots : name ≠ ".."
  slash : '/' ∉ name.toList
  nul : '\x00' ∉ name.toList
  short : name.utf8ByteSize ≤ pieceLength + 1

/-- The name of a directory of a key. -/
theorem isKeyName_directory {text : String} {piece : List Char} (here : piece ∈ keyPieces text) :
    IsKeyName (String.ofList (piece ++ [directoryMark])) := by
  have short := (length_of_mem_keyPieces here).1
  have apart (dots : List Char) (plain : directoryMark ∉ dots) :
      String.ofList (piece ++ [directoryMark]) ≠ String.ofList dots := by
    intro same
    apply plain
    rw [← String.ofList_injective same]
    exact List.mem_append_right _ List.mem_cons_self
  constructor
  case filled => exact apart [] (by decide)
  case dot => exact apart ['.'] (by decide)
  case dots => exact apart ['.', '.'] (by decide)
  case slash =>
    rw [String.toList_ofList, List.mem_append, not_or]
    exact ⟨not_mem_keyPieces (by decide) (by decide) here, by decide⟩
  case nul =>
    rw [String.toList_ofList, List.mem_append, not_or]
    exact ⟨not_mem_keyPieces (by decide) (by decide) here, by decide⟩
  case short =>
    rw [utf8ByteSize_ofList]
    · rw [List.length_append, List.length_singleton]
      omega
    · intro c inside
      rcases List.mem_append.mp inside with inside | inside
      · exact utf8Size_of_mem_percentEncode (mem_keyPieces here inside)
      · rw [List.mem_singleton.mp inside]
        decide

/-- The names of the key of a text that is not empty, one dot or two. -/
theorem isKeyName_of_ne {text : String} (filled : text ≠ "") (dot : text ≠ ".") (dots : text ≠ "..")
    {name : String} (mem : name ∈ encodeKey text) : IsKeyName name := by
  rw [encodeKey_eq] at mem
  obtain ⟨piece, here, ⟨rfl, last⟩ | rfl⟩ := mem_names mem
  · obtain ⟨short, -, full⟩ := length_of_mem_keyPieces here
    -- A short piece is the whole key, and tells the text from others.
    have apart (other : List Char) (few : other.length < pieceLength)
        (same : encodeKey (String.ofList other) = [String.ofList other])
        (ne : text ≠ String.ofList other) : String.ofList piece ≠ String.ofList other := by
      intro whole
      obtain rfl := String.ofList_injective whole
      by_cases alone : keyPieces text = [piece]
      · apply ne
        apply encodeKey_injective
        rw [same, encodeKey_eq, alone]
        rfl
      · have := full alone last
        omega
    constructor
    case filled => exact apart [] (by decide) (by decide) filled
    case dot => exact apart ['.'] (by decide) (by decide) dot
    case dots => exact apart ['.', '.'] (by decide) (by decide) dots
    case slash =>
      rw [String.toList_ofList]
      exact not_mem_keyPieces (by decide) (by decide) here
    case nul =>
      rw [String.toList_ofList]
      exact not_mem_keyPieces (by decide) (by decide) here
    case short =>
      rw [utf8ByteSize_ofList fun c inside =>
        utf8Size_of_mem_percentEncode (mem_keyPieces here inside)]
      omega
  · exact isKeyName_directory here

/-- The names of the key of a specifier, which has a colon in it. -/
theorem isKeyName {text : String} (colon : ':' ∈ text.toList) {name : String}
    (mem : name ∈ encodeKey text) : IsKeyName name := by
  have other (plain : String) (free : ':' ∉ plain.toList) : text ≠ plain := by
    rintro rfl
    exact free colon
  exact isKeyName_of_ne (other "" (by decide)) (other "." (by decide)) (other ".." (by decide)) mem

end ModuleLinker.Cache
