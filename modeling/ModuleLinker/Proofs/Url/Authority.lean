import ModuleLinker.Proofs.Url.Host

/-!
# Authorities are read back

An authority that has been read is canonical (`Authority.isCanonical_of_read`), and the text of a
canonical authority in front of a path is read as this authority (`Authority.read_text`).
-/

set_option autoImplicit false

namespace ModuleLinker.Url

open Text

/-! ## Hosts in front of a port or a path -/

theorem Host.not_isEnd_of_isInside {c : Char} (inside : Host.isInside c = true) :
    Authority.isEnd true c = false ∧ c ≠ '[' ∧ c ≠ ']' := by
  unfold Host.isInside at inside
  rw [Bool.and_eq_true] at inside
  have other := inside.2
  simp at other
  simp [Authority.isEnd, other]

/-- What stands in a host belongs to it; a colon does only between brackets. -/
theorem Authority.hostLength_append {inBrackets : Bool} {part : List Char}
    (inside : ∀ c ∈ part, Host.isInside c = true) (colon : inBrackets = false → ':' ∉ part)
    (rest : List Char) :
    hostLength true inBrackets (part ++ rest) = part.length + hostLength true inBrackets rest := by
  induction part with
  | nil => simp
  | cons c part ih =>
    rw [List.forall_mem_cons] at inside
    obtain ⟨goesOn, noOpening, noClosing⟩ := Host.not_isEnd_of_isInside inside.1
    have noColon : (c == ':' && !inBrackets) = false := by
      cases inBrackets with
      | true => simp
      | false =>
        have := colon rfl
        rw [List.mem_cons, not_or] at this
        simpa using Ne.symm this.1
    have ih := ih inside.2 fun outside mem => colon outside (List.mem_cons_of_mem c mem)
    rw [List.cons_append, hostLength, noColon, goesOn]
    simp only [beq_iff_eq, noOpening, noClosing, Bool.or_self, Bool.false_eq_true, if_false, ih,
      List.length_cons]
    omega

/-- A host ends in front of a colon and in front of what ends an authority. -/
theorem Host.Shape.hostLength_append {host : List Char} (shape : Host.Shape host)
    {rest : List Char} (ends : ∀ c ∈ rest.head?, c = ':' ∨ Authority.isEnd true c = true) :
    Authority.hostLength true false (host ++ rest) = host.length := by
  have stops : Authority.hostLength true false rest = 0 := by
    cases rest with
    | nil => rfl
    | cons c rest =>
      rw [Authority.hostLength, if_pos]
      rcases ends c rfl with rfl | atEnd
      · rfl
      · rw [atEnd, Bool.or_true]
  cases shape with
  | bracketed inside =>
    have behind (cs : List Char) : Authority.hostLength true true (']' :: cs) =
      Authority.hostLength true false cs + 1 := rfl
    rename_i address
    change Authority.hostLength true true (address ++ [']'] ++ rest) + 1 = _
    rw [List.append_assoc, Authority.hostLength_append inside (fun same => by cases same),
      List.singleton_append, behind, stops]
    simp
  | name _ inside noColon =>
    rw [Authority.hostLength_append inside (fun _ => noColon), stops, Nat.add_zero]

/-- No host is taken for a drive letter. -/
theorem Host.Shape.not_isDriveLetter {host : List Char} (shape : Host.Shape host) :
    Path.isDriveLetter host = false := by
  rw [← Bool.not_eq_true]
  intro drive
  unfold Path.isDriveLetter at drive
  split at drive
  case h_2 => cases drive
  case h_1 letter mark =>
    rw [Bool.and_eq_true, Bool.or_eq_true, beq_iff_eq, beq_iff_eq] at drive
    obtain ⟨alpha, mark⟩ := drive
    generalize same : [letter, _] = host at shape
    cases shape with
    | bracketed =>
      rw [(List.cons.inj same).1] at alpha
      cases alpha
    | name _ inside noColon =>
      subst same
      rcases mark with rfl | rfl
      · simp at noColon
      · cases inside '|' (by simp)

namespace Authority

/-! ## Users -/

/-- Whether a user with a password is in its written form; an at sign comes behind it. -/
structure IsUser (user : List Char) : Prop where
  some : user ≠ []
  clean : ∀ c ∈ user, isVisible c = true ∧ c ∉ "#/?@\\".toList
  fixed : userinfoText user = user ++ ['@']

theorem isPlainUserinfo_spec {c : Char} (plain : isPlainUserinfo c = true) :
    isVisible c = true ∧ c ∉ "#/?@\\".toList ∧ c ≠ ':' := by
  unfold isPlainUserinfo Path.isPlain at plain
  simp only [Bool.and_eq_true] at plain
  obtain ⟨⟨visible, other⟩, mark⟩ := plain
  refine ⟨?_, ?_⟩
  · unfold isVisible
    rw [Bool.and_eq_true]
    exact visible
  · simp at other mark
    simp [other, mark]

/-- What has been encoded for a user or a password stays as it is. -/
theorem plain_of_mem_encoded {cs : List Char} {c : Char}
    (mem : c ∈ percentEncode isPlainUserinfo cs) : isPlainUserinfo c = true :=
  plain_of_mem_percentEncode (by decide) mem

/-- A user and a password as they are written, without the at sign behind them. -/
def userText (name password : List Char) : List Char :=
  name ++ if password.isEmpty then [] else ':' :: password

theorem mem_userText {name password : List Char} {c : Char} (mem : c ∈ userText name password) :
    c ∈ name ∨ c = ':' ∨ c ∈ password := by
  unfold userText at mem
  split at mem <;> simp at mem <;> tauto

/-- A user and a password are told apart by the first colon. -/
theorem userinfoText_userText {name password : List Char}
    (plainName : ∀ c ∈ name, isPlainUserinfo c = true)
    (plainPassword : ∀ c ∈ password, isPlainUserinfo c = true)
    (some : userText name password ≠ []) :
    userinfoText (userText name password) = userText name password ++ ['@'] := by
  have noColon : ∀ c ∈ name, (c != ':') = true := by
    intro c mem
    simpa using (isPlainUserinfo_spec (plainName c mem)).2.2
  have front : (userText name password).takeWhile (· != ':') = name := by
    unfold userText
    rw [List.takeWhile_append_of_pos noColon]
    split <;> simp
  have back : (userText name password).drop (name.length + 1) = password := by
    unfold userText
    split
    case isTrue none =>
      rw [List.isEmpty_iff.mp none]
      simp
    case isFalse =>
      rw [← List.drop_drop, List.drop_left]
      rfl
  unfold userinfoText
  dsimp only
  rw [front, back, percentEncode_of_forall plainName, percentEncode_of_forall plainPassword]
  change (if (userText name password).isEmpty then [] else userText name password ++ ['@']) = _
  rw [if_neg]
  rwa [List.isEmpty_iff]

/-- A user and a password that have been read are in their written form. -/
theorem isUser_of_userinfoText (text : List Char) :
    userinfoText text = [] ∨ ∃ user, userinfoText text = user ++ ['@'] ∧ IsUser user := by
  unfold userinfoText
  dsimp only
  generalize text.takeWhile (· != ':') = name, text.drop _ = password
  have same : percentEncode isPlainUserinfo name ++ (if password.isEmpty then []
      else ':' :: percentEncode isPlainUserinfo password) =
      userText (percentEncode isPlainUserinfo name) (percentEncode isPlainUserinfo password) := by
    rw [userText, isEmpty_percentEncode]
  rw [same]
  split
  case isTrue => exact .inl rfl
  case isFalse some =>
    rw [List.isEmpty_iff] at some
    refine .inr ⟨_, rfl, some, fun c mem => ?_, ?_⟩
    · have plain (cs : List Char) (mem : c ∈ percentEncode isPlainUserinfo cs) :
          isVisible c = true ∧ c ∉ "#/?@\\".toList := by
        have spec := isPlainUserinfo_spec (plain_of_mem_encoded mem)
        exact ⟨spec.1, spec.2.1⟩
      rcases mem_userText mem with mem | rfl | mem
      · exact plain name mem
      · decide
      · exact plain password mem
    · exact userinfoText_userText (fun _ => plain_of_mem_encoded) (fun _ => plain_of_mem_encoded) some

/-! ## Authorities -/

/-- An authority as reading gives it, for a scheme with a standard port. -/
structure IsCanonical (standard : Nat) (a : Authority) : Prop where
  userinfo : a.userinfo = [] ∨ ∃ user, a.userinfo = user ++ ['@'] ∧ IsUser user
  host : Host.read a.host = .ok a.host
  port : ∀ port, a.port = some port → port ≤ 65535 ∧ port ≠ standard

/-- An authority that has been read is canonical. -/
theorem isCanonical_of_read {standard : Nat} {text rest : List Char} {a : Authority}
    (read : Authority.read standard text = .ok (a, rest)) : a.IsCanonical standard := by
  have userinfo (u v : List Char) (h : readUserinfo true text = .ok (u, v)) :
      u = [] ∨ ∃ user, u = user ++ ['@'] ∧ IsUser user := by
    unfold readUserinfo at h
    dsimp only at h
    split at h
    · split at h
      · cases h
      · cases h
        exact isUser_of_userinfoText _
    · cases h
      exact .inl rfl
  have port (text rest : List Char) (port : Option Nat)
      (h : readPort standard text = .ok (port, rest)) (n : Nat) (some : port = some n) :
      n ≤ 65535 ∧ n ≠ standard := by
    unfold readPort at h
    dsimp only at h
    split at h
    case isTrue => cases h
    case isFalse fits =>
      cases h
      split at some
      case isTrue => cases some
      case isFalse other =>
        cases some
        simp only [Bool.or_eq_true, decide_eq_true_eq, not_or] at fits other
        exact ⟨Nat.le_of_not_lt fits.1, other.2⟩
  unfold Authority.read at read
  cases first : readUserinfo true text with
  | error e =>
    rw [first] at read
    cases read
  | ok pair =>
    obtain ⟨u, v⟩ := pair
    simp only [first, bind, Except.bind] at read
    split at read
    · cases read
    split at read
    · cases read
    rename_i host here
    have host := Host.read_of_read here
    have user := userinfo u v first
    split at read
    · split at read
      · cases read
      · rename_i rest' _ pair here
        cases read
        exact ⟨user, host, port _ _ _ here⟩
    · cases read
      exact ⟨user, host, fun _ none => by cases none⟩

section

variable {standard : Nat} {a : Authority}

theorem IsCanonical.shape (h : a.IsCanonical standard) : Host.Shape a.host :=
  Host.shape_of_read h.host

theorem visible_of_isDigit {c : Char} (digit : c.isDigit = true) :
    isVisible c = true ∧ c ∉ "#/?@\\".toList := by
  constructor
  · simp only [Char.isDigit, Bool.and_eq_true, decide_eq_true_eq, UInt32.le_iff_toNat_le] at digit
    change 48 ≤ c.toNat ∧ c.toNat ≤ 57 at digit
    unfold isVisible
    simp only [Bool.and_eq_true, decide_eq_true_eq]
    omega
  · simp
    refine ⟨?_, ?_, ?_, ?_, ?_⟩ <;> (rintro rfl; cases digit)

/-- The characters of a host and a port are visible, and none of them ends an authority. -/
theorem IsCanonical.visible_hostText (h : a.IsCanonical standard) {c : Char}
    (mem : c ∈ hostText a.host a.port) : isVisible c = true ∧ c ∉ "#/?@\\".toList := by
  unfold hostText at mem
  split at mem
  · exact h.shape.visible mem
  · rw [List.mem_append, List.mem_cons] at mem
    rcases mem with mem | rfl | mem
    · exact h.shape.visible mem
    · decide
    · exact visible_of_isDigit (isDigit_of_mem_toString mem)

theorem IsCanonical.visible_text (h : a.IsCanonical standard) {c : Char} (mem : c ∈ a.text) :
    isVisible c = true ∧ c ∉ "#/?\\".toList := by
  have weaken (spec : isVisible c = true ∧ c ∉ "#/?@\\".toList) :
      isVisible c = true ∧ c ∉ "#/?\\".toList := by
    refine ⟨spec.1, fun mem => spec.2 ?_⟩
    simp at mem ⊢
    tauto
  rw [text_eq, List.mem_append] at mem
  rcases mem with mem | mem
  · rcases h.userinfo with none | ⟨user, some, isUser⟩
    · rw [none] at mem
      cases mem
    · rw [some, List.mem_append, List.mem_singleton] at mem
      rcases mem with mem | rfl
      · exact weaken (isUser.clean c mem)
      · decide
  · exact weaken (h.visible_hostText mem)

/-- An authority ends in front of a path. -/
theorem IsCanonical.takeWhile_text (h : a.IsCanonical standard) (path : List Char) :
    (a.text ++ '/' :: path).takeWhile (fun c => !isEnd true c) = a.text := by
  rw [List.takeWhile_append_of_pos]
  · exact List.append_nil _
  · intro c mem
    have other := (h.visible_text mem).2
    simp at other
    simp [isEnd, other]

/-- The user in front of a host is read back. -/
theorem IsCanonical.readUserinfo_text (h : a.IsCanonical standard) (path : List Char) :
    readUserinfo true (a.text ++ '/' :: path) =
      .ok (a.userinfo, hostText a.host a.port ++ '/' :: path) := by
  have noAt : '@' ∉ hostText a.host a.port := by
    intro mem
    have other := (h.visible_hostText mem).2
    exact other (by decide)
  unfold readUserinfo
  rw [h.takeWhile_text path, text_eq]
  dsimp only
  rcases h.userinfo with none | ⟨user, some, isUser⟩
  · rw [none, List.nil_append, if_neg (by simpa using noAt)]
  · have contains : (a.userinfo ++ hostText a.host a.port).contains '@' = true := by
      rw [some]
      simp
    have turned : (a.userinfo ++ hostText a.host a.port).reverse =
        (hostText a.host a.port).reverse ++ '@' :: user.reverse := by
      rw [some]
      simp
    have behind : (a.userinfo ++ hostText a.host a.port).reverse.takeWhile (· != '@') =
        (hostText a.host a.port).reverse := by
      rw [turned, List.takeWhile_append_of_pos]
      · simp
      · intro c mem
        rw [bne_iff_ne]
        rintro rfl
        exact noAt (List.mem_reverse.mp mem)
    have front : (a.userinfo ++ hostText a.host a.port).take ((a.userinfo ++
        hostText a.host a.port).length - (hostText a.host a.port).reverse.length - 1) = user := by
      have length : (a.userinfo ++ hostText a.host a.port).length -
          (hostText a.host a.port).reverse.length - 1 = user.length := by
        rw [some]
        simp only [List.length_append, List.length_reverse, List.length_singleton]
        omega
      rw [length, some, List.append_assoc, List.take_left]
    have rest : (a.userinfo ++ hostText a.host a.port ++ '/' :: path).drop (user.length + 1) =
        hostText a.host a.port ++ '/' :: path := by
      have length : user.length + 1 = (user ++ ['@']).length := by simp
      rw [some, length, List.append_assoc, List.drop_left]
    have filled : user.isEmpty = false := by
      rw [← Bool.not_eq_true, List.isEmpty_iff]
      exact isUser.some
    rw [if_pos contains, behind, front, rest, filled, Bool.false_and, isUser.fixed, ← some]
    rfl

/-- The port behind a host is read back. -/
theorem readPort_toString {port : Nat} (fits : port ≤ 65535) (other : port ≠ standard)
    (path : List Char) :
    readPort standard ((toString port).toList ++ '/' :: path) = .ok (some port, '/' :: path) := by
  have digits : ((toString port).toList ++ '/' :: path).takeWhile Char.isDigit =
      (toString port).toList := by
    rw [List.takeWhile_append_of_pos fun c mem => isDigit_of_mem_toString mem]
    exact List.append_nil _
  have value : (toString port).toList.foldl (fun n c => 10 * n + (c.toNat - 48)) 0 = port := by
    rw [toList_toString]
    exact Nat.ofDigitChars_toDigits (by decide) (by decide)
  have filled : (toString port).toList.isEmpty = false := by
    rw [← Bool.not_eq_true, List.isEmpty_iff, toList_toString]
    exact Nat.toDigits_ne_nil
  unfold readPort
  dsimp only
  rw [digits, value, List.drop_left, filled, if_neg, if_neg]
  · simpa using other
  · simpa [isEnd] using fits

theorem hostText_append (host path : List Char) (port : Option Nat) :
    hostText host port ++ path = host ++ (hostText [] port ++ path) := by
  cases port <;> simp [hostText]

/-- A canonical authority in front of a path is read back. -/
theorem IsCanonical.read_text (h : a.IsCanonical standard) (path : List Char) :
    Authority.read standard (a.text ++ '/' :: path) = .ok (a, '/' :: path) := by
  have ends : ∀ c ∈ (hostText [] a.port ++ '/' :: path).head?, c = ':' ∨ isEnd true c = true := by
    cases a.port <;> simp [hostText, isEnd]
  have length := h.shape.hostLength_append ends
  have some : a.host.length ≠ 0 := fun none => h.shape.ne_nil (List.length_eq_zero_iff.mp none)
  unfold Authority.read
  rw [h.readUserinfo_text, hostText_append]
  simp only [bind, Except.bind]
  rw [length, if_neg some, List.take_left, List.drop_left, h.host]
  obtain ⟨userinfo, host, port⟩ := a
  cases port with
  | none => rfl
  | some port =>
    obtain ⟨fits, other⟩ := h.port port rfl
    simp only [hostText, List.nil_append, List.cons_append, readPort_toString fits other]

end

end Authority

end ModuleLinker.Url
