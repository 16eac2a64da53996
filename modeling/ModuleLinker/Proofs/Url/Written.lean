import ModuleLinker.Proofs.Text.Digits
import ModuleLinker.Proofs.Text.Percent
import ModuleLinker.Proofs.Text.Split
import ModuleLinker.Url.Authority

/-!
# Authorities in their written form

Which characters stand in the user, the host and the port that are read from a URL. No slash does, an
at sign stands only behind the user, and a colon in a host stands in brackets. So an authority can be
told apart from the path behind it, and the user, the host and the port from each other.
-/

set_option autoImplicit false

namespace ModuleLinker.Url

open Text

/-- Whether a character tells the parts of an authority apart from each other or from a path. -/
def isMark (c : Char) : Bool := c == '/' || c == '@' || c == ':' || c == ']'

theorem not_isMark_digitChar (d : Nat) : isMark (Nat.digitChar d) = false := by
  have apart (mark : Char) (h : mark = '/' ∨ mark = '@' ∨ mark = ':' ∨ mark = ']') :
      d.digitChar ≠ mark := by
    rcases h with rfl | rfl | rfl | rfl <;> exact Nat.digitChar_ne _ (by decide)
  simp [isMark, apart]

theorem not_isMark_of_mem_toDigits {b n : Nat} (two : 1 < b) {c : Char}
    (mem : c ∈ Nat.toDigits b n) : isMark c = false := by
  obtain ⟨d, -, rfl⟩ := mem_toDigits two mem
  exact not_isMark_digitChar d

/-! ## Hosts -/

/-- The written form of a host: a colon stands in it only if it is in brackets. -/
structure Host.IsWritten (host : List Char) : Prop where
  slash : '/' ∉ host
  atSign : '@' ∉ host
  colon : ':' ∈ host → host.getLast? = some ']'

theorem Host.isWritten_of_forall {host : List Char} (h : ∀ c ∈ host, isMark c = false) :
    Host.IsWritten host where
  slash mem := by cases h _ mem
  atSign mem := by cases h _ mem
  colon mem := by cases h _ mem

/-- Dots and digits stand in an IPv4 address. -/
theorem mem_dotted {numbers : List Nat} {c : Char}
    (mem : c ∈ (".".intercalate (numbers.map toString)).toList) :
    c = '.' ∨ ∃ d < 10, c = Nat.digitChar d := by
  have number (n : Nat) (mem : c ∈ (toString n).toList) :
      c = '.' ∨ ∃ d < 10, c = Nat.digitChar d := by
    rw [toList_toString] at mem
    exact .inr (mem_toDigits (by decide) mem)
  induction numbers with
  | nil => cases mem
  | cons n numbers ih =>
    cases numbers with
    | nil =>
      rw [List.map_singleton, String.intercalate_singleton] at mem
      exact number n mem
    | cons n' numbers =>
      rw [List.map_cons, List.map_cons, String.intercalate_cons_cons, String.toList_append,
        String.toList_append, List.mem_append, List.mem_append] at mem
      rcases mem with (mem | mem) | mem
      · exact number n mem
      · exact .inl (List.mem_singleton.mp mem)
      · exact ih mem

/-- Colons and digits stand in an IPv6 address. -/
theorem Ipv6.mem_joined {pieces : List Nat} {c : Char} (mem : c ∈ Ipv6.joined pieces) :
    c = ':' ∨ ∃ d < 16, c = Nat.digitChar d := by
  have piece (cs : List Char) (h : cs ∈ pieces.map Ipv6.pieceText) (mem : c ∈ cs) :
      ∃ d < 16, c = Nat.digitChar d := by
    obtain ⟨n, -, rfl⟩ := List.mem_map.mp h
    exact mem_toDigits (by decide) mem
  unfold Ipv6.joined at mem
  generalize pieces.map Ipv6.pieceText = texts at mem piece
  induction texts with
  | nil => cases mem
  | cons text texts ih =>
    cases texts with
    | nil =>
      simp only [List.intersperse, List.flatten_cons, List.flatten_nil, List.append_nil] at mem
      exact .inr (piece text List.mem_cons_self mem)
    | cons text' texts =>
      simp only [List.intersperse_cons_cons, List.flatten_cons, List.mem_append] at mem
      rcases mem with mem | mem | mem
      · exact .inr (piece text List.mem_cons_self mem)
      · exact .inl (List.mem_singleton.mp mem)
      · exact ih mem fun cs h => piece cs (List.mem_cons_of_mem text h)

theorem Ipv6.mem_text {pieces : List Nat} {c : Char} (mem : c ∈ Ipv6.text pieces) :
    c = ':' ∨ ∃ d < 16, c = Nat.digitChar d := by
  unfold Ipv6.text at mem
  dsimp only at mem
  split at mem
  · exact Ipv6.mem_joined mem
  · rw [List.mem_append, List.mem_append] at mem
    rcases mem with (mem | mem) | mem
    · exact Ipv6.mem_joined mem
    · left
      simpa using mem
    · exact Ipv6.mem_joined mem

/-- What is read as a host is in the written form of one. -/
theorem Host.isWritten_of_read {text host : List Char} (read : Host.read text = .ok host) :
    Host.IsWritten host := by
  unfold Host.read at read
  split at read
  case isTrue =>
    split at read
    case isFalse => cases read
    case isTrue =>
      unfold Ipv6.read at read
      split at read
      case h_2 => cases read
      case h_1 pieces _ =>
        cases read
        have inside (c : Char) (mem : c ∈ Ipv6.text pieces) : c ≠ '/' ∧ c ≠ '@' := by
          rcases Ipv6.mem_text mem with rfl | ⟨d, -, rfl⟩
          · decide
          · have plain := not_isMark_digitChar d
            constructor <;> (intro same; rw [same] at plain; cases plain)
        constructor
        case slash => simpa using fun mem => (inside _ mem).1 rfl
        case atSign => simpa using fun mem => (inside _ mem).2 rfl
        case colon =>
          intro _
          exact List.getLast?_concat
  case isFalse =>
    split at read
    case h_1 => cases read
    case h_2 decoded _ =>
      dsimp only at read
      split at read
      case isTrue => cases read
      case isFalse clean =>
        split at read
        case isTrue => cases read
        case isFalse =>
          split at read
          case isTrue =>
            unfold Ipv4.read at read
            split at read
            case h_2 => cases read
            case h_1 =>
              cases read
              refine Host.isWritten_of_forall fun c mem => ?_
              rcases mem_dotted mem with rfl | ⟨d, -, rfl⟩
              · rfl
              · exact not_isMark_digitChar d
          case isFalse =>
            cases read
            apply Host.isWritten_of_forall
            intro c mem
            have allowed : Host.isForbidden c = false := by
              rw [List.any_eq_true, not_exists] at clean
              simpa [mem] using clean c
            rw [← Bool.not_eq_true]
            intro mark
            have mark : c = '/' ∨ c = '@' ∨ c = ':' ∨ c = ']' := by
              simpa [isMark, or_assoc] using mark
            rcases mark with rfl | rfl | rfl | rfl <;> cases allowed

/-! ## Authorities -/

namespace Authority

/-- The written form of an authority: an at sign stands behind the user and nowhere else. -/
structure IsWritten (a : Authority) : Prop where
  slash : '/' ∉ a.userinfo
  userinfo : a.userinfo = [] ∨ ∃ user, a.userinfo = user ++ ['@'] ∧ '@' ∉ user
  host : Host.IsWritten a.host

theorem userinfoText_spec (text : List Char) :
    '/' ∉ userinfoText text ∧
      (userinfoText text = [] ∨ ∃ user, userinfoText text = user ++ ['@'] ∧ '@' ∉ user) := by
  have plain (mark : Char) (h : mark = '/' ∨ mark = '@') (cs : List Char) :
      mark ∉ percentEncode isPlainUserinfo cs := by
    rcases h with rfl | rfl <;> exact not_mem_percentEncode cs (by decide) (by decide)
  have written (mark : Char) (h : mark = '/' ∨ mark = '@') (user password : List Char) :
      mark ∉ percentEncode isPlainUserinfo user ++
        (if password.isEmpty then [] else ':' :: percentEncode isPlainUserinfo password) := by
    have colon : mark ≠ ':' := by rcases h with rfl | rfl <;> decide
    rw [List.mem_append, not_or]
    refine ⟨plain mark h user, ?_⟩
    split
    · exact List.not_mem_nil
    · simp [colon, plain mark h password]
  unfold userinfoText
  dsimp only
  have slash := written '/' (.inl rfl) (text.takeWhile (· != ':'))
    (text.drop ((text.takeWhile (· != ':')).length + 1))
  have atSign := written '@' (.inr rfl) (text.takeWhile (· != ':'))
    (text.drop ((text.takeWhile (· != ':')).length + 1))
  generalize percentEncode isPlainUserinfo (text.takeWhile (· != ':')) ++ _ = user at slash atSign
  by_cases none : user.isEmpty = true
  · rw [if_pos none]
    exact ⟨List.not_mem_nil, .inl rfl⟩
  · rw [if_neg none]
    refine ⟨?_, .inr ⟨user, rfl, atSign⟩⟩
    rw [List.mem_append, not_or]
    exact ⟨slash, by decide⟩

/-- What is read as an authority is in the written form of one. -/
theorem isWritten_of_read {standard : Nat} {text rest : List Char} {a : Authority}
    (read : Authority.read standard text = .ok (a, rest)) : a.IsWritten := by
  have userinfo (u v : List Char) (h : readUserinfo true text = .ok (u, v)) :
      '/' ∉ u ∧ (u = [] ∨ ∃ user, u = user ++ ['@'] ∧ '@' ∉ user) := by
    unfold readUserinfo at h
    dsimp only at h
    split at h
    · split at h
      · cases h
      · cases h
        exact userinfoText_spec _
    · cases h
      exact ⟨List.not_mem_nil, .inl rfl⟩
  unfold Authority.read at read
  cases first : readUserinfo true text with
  | error e =>
    rw [first] at read
    cases read
  | ok pair =>
    obtain ⟨u, v⟩ := pair
    simp only [first, bind, Except.bind] at read
    split at read
    · cases read
    · split at read
      · cases read
      · rename_i host here
        have host := Host.isWritten_of_read here
        have user := userinfo u v first
        split at read
        · split at read
          · cases read
          · cases read
            exact ⟨user.1, user.2, host⟩
        · cases read
          exact ⟨user.1, user.2, host⟩

/-- The host and the port of an authority as they are written. -/
def hostText (host : List Char) : Option Nat → List Char
  | none => host
  | some port => host ++ ':' :: (toString port).toList

theorem text_eq (a : Authority) : a.text = a.userinfo ++ hostText a.host a.port := by
  unfold text hostText
  cases a.port <;> simp

theorem not_mem_hostText {mark : Char} {host : List Char} (h : mark ∉ host)
    (isMark : isMark mark = true) (other : mark ≠ ':') (port : Option Nat) :
    mark ∉ hostText host port := by
  cases port with
  | none => exact h
  | some n =>
    intro mem
    rw [hostText, List.mem_append, List.mem_cons, toList_toString] at mem
    rcases mem with mem | rfl | mem
    · exact h mem
    · exact other rfl
    · have := not_isMark_of_mem_toDigits (by decide) mem
      rw [isMark] at this
      cases this

/-- A host in its written form does not look like another one with a port. -/
theorem hostText_ne {host host' : List Char} (h : Host.IsWritten host) (port : Nat) :
    host ≠ hostText host' (some port) := by
  intro same
  have colon : ':' ∈ host := by
    rw [same]
    simp [hostText]
  have last := h.colon colon
  have digits : (toString port).toList ≠ [] := by
    rw [toList_toString]
    exact Nat.toDigits_ne_nil
  rw [same, hostText, List.getLast?_append, List.getLast?_cons, Option.some_or,
    List.getLast?_eq_some_getLast digits] at last
  have mem := List.getLast_mem digits
  rw [Option.getD_some, Option.some.injEq] at last
  rw [last, toList_toString] at mem
  cases not_isMark_of_mem_toDigits (by decide) mem

theorem hostText_inj {host host' : List Char} (h : Host.IsWritten host) (h' : Host.IsWritten host')
    {port port' : Option Nat} (same : hostText host port = hostText host' port') :
    host = host' ∧ port = port' := by
  cases port with
  | none =>
    cases port' with
    | none => exact ⟨same, rfl⟩
    | some n' => exact absurd same (hostText_ne h n')
  | some n =>
    cases port' with
    | none => exact absurd same.symm (hostText_ne h' n)
    | some n' =>
      -- No digit is a colon, so the text is cut at its last colon.
      have none (n : Nat) : ':' ∉ (toString n).toList.reverse := by
        intro mem
        rw [List.mem_reverse, toList_toString] at mem
        cases not_isMark_of_mem_toDigits (by decide) mem
      have turned := congrArg List.reverse same
      simp only [hostText, List.reverse_append, List.reverse_cons, List.append_assoc,
        List.singleton_append] at turned
      obtain ⟨digits, hosts⟩ := append_cons_inj (none n) (none n') turned
      have number := toString_injective (List.reverse_inj.mp digits)
      exact ⟨List.reverse_inj.mp hosts, congrArg some number⟩

/-- Authorities in their written form are told apart by their texts. -/
theorem text_injective {a a' : Authority} (h : a.IsWritten) (h' : a'.IsWritten)
    (same : a.text = a'.text) : a = a' := by
  rw [text_eq, text_eq] at same
  have atSign (a : Authority) (h : a.IsWritten) : '@' ∉ hostText a.host a.port :=
    not_mem_hostText h.host.atSign rfl (by decide) _
  have halves : a.userinfo = a'.userinfo ∧
      hostText a.host a.port = hostText a'.host a'.port := by
    rcases h.userinfo with none | ⟨user, some, clean⟩
    · rcases h'.userinfo with none' | ⟨user', some', clean'⟩
      · rw [none, none'] at same
        exact ⟨none.trans none'.symm, same⟩
      · rw [none, some'] at same
        refine absurd ?_ (atSign a h)
        rw [List.nil_append] at same
        simp [same]
    · rcases h'.userinfo with none' | ⟨user', some', clean'⟩
      · rw [some, none'] at same
        refine absurd ?_ (atSign a' h')
        rw [List.nil_append] at same
        simp [← same]
      · rw [some, some', List.append_assoc, List.append_assoc] at same
        obtain ⟨rfl, rest⟩ := append_cons_inj clean clean' same
        exact ⟨some.trans some'.symm, rest⟩
  obtain ⟨host, port⟩ := hostText_inj h.host h'.host halves.2
  obtain ⟨u, v, w⟩ := a
  obtain ⟨u', v', w'⟩ := a'
  obtain ⟨rfl, -⟩ := halves
  obtain rfl : v = v' := host
  obtain rfl : w = w' := port
  rfl

end Authority

end ModuleLinker.Url
