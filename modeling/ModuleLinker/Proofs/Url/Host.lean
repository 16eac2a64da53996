import ModuleLinker.Proofs.Text.Percent
import ModuleLinker.Proofs.Text.Utf8
import ModuleLinker.Proofs.Url.Ipv4
import ModuleLinker.Proofs.Url.Ipv6
import ModuleLinker.Proofs.Url.Written
import ModuleLinker.Url.Host

/-!
# Hosts are read back

The written form of a host is its own written form (`Host.read_of_read`), whether the host is an
address or a domain name. No character that ends a host stands in it, but the colons of an IPv6
address, which are in brackets (`Host.shape_of_read`).
-/

set_option autoImplicit false

namespace ModuleLinker.Url

open Text

/-- Whether a character is a visible ASCII character. -/
def isVisible (c : Char) : Bool := 0x20 < c.toNat && c.toNat < 0x7F

namespace Host

/-- Whether a character may stand in a host: between brackets, or outside them if it is no colon. -/
def isInside (c : Char) : Bool := isVisible c && !"#%/<>?@[\\]^|".toList.contains c

/-- The two shapes of a host in its written form: something in brackets, and something without a
colon. -/
inductive Shape : List Char → Prop
  /-- An address in brackets, in which colons may stand. -/
  | bracketed {address : List Char} (inside : ∀ c ∈ address, isInside c = true) :
    Shape ('[' :: (address ++ [']']))
  /-- A name, or an address without brackets. -/
  | name {name : List Char} (some : name ≠ []) (inside : ∀ c ∈ name, isInside c = true)
    (noColon : ':' ∉ name) : Shape name

theorem isInside_digitChar {d : Nat} (small : d < 16) : isInside (Nat.digitChar d) = true := by
  have all : ∀ d, d < 16 → isInside (Nat.digitChar d) = true := by decide
  exact all d small

/-! ## Names -/

/-- A domain name in its written form. -/
structure IsName (name : List Char) : Prop where
  allowed : ∀ c ∈ name, isForbidden c = false
  small : lower name = name
  some : name ≠ []

theorem isInside_of_allowed {c : Char} (allowed : isForbidden c = false) :
    isInside c = true ∧ c ≠ ':' := by
  unfold isForbidden at allowed
  simp only [Bool.or_eq_false_iff, decide_eq_false_iff_not] at allowed
  obtain ⟨⟨above, below⟩, other⟩ := allowed
  have others : c ≠ '#' ∧ c ≠ '%' ∧ c ≠ '/' ∧ c ≠ '<' ∧ c ≠ '>' ∧ c ≠ '?' ∧ c ≠ '@' ∧ c ≠ '[' ∧
      c ≠ '\\' ∧ c ≠ ']' ∧ c ≠ '^' ∧ c ≠ '|' ∧ c ≠ ':' := by
    simp at other
    tauto
  constructor
  · have visible : isVisible c = true := by
      unfold isVisible
      simp only [Bool.and_eq_true, decide_eq_true_eq]
      omega
    unfold isInside
    rw [visible]
    simp [others]
  · exact others.2.2.2.2.2.2.2.2.2.2.2.2

theorem IsName.shape {name : List Char} (h : IsName name) : Shape name :=
  .name h.some (fun c mem => (isInside_of_allowed (h.allowed c mem)).1)
    fun mem => (isInside_of_allowed (h.allowed ':' mem)).2 rfl

/-- A domain name in its written form is read back, unless it is taken for an address. -/
theorem IsName.read {name : List Char} (h : IsName name) :
    Host.read name = if Ipv4.endsInNumber name then Ipv4.read name else .ok name := by
  have bracket : name.head? ≠ Option.some '[' := by
    intro first
    cases h.allowed '[' (List.mem_of_mem_head? first)
  have percent : '%' ∉ name := fun mem => by cases h.allowed '%' mem
  have clean : ¬ name.any isForbidden = true := by
    rw [List.any_eq_true, not_exists]
    rintro c ⟨mem, forbidden⟩
    rw [h.allowed c mem] at forbidden
    cases forbidden
  have filled : ¬ name.isEmpty = true := by
    rw [List.isEmpty_iff]
    exact h.some
  rw [Host.read, if_neg bracket, percentDecode_of_not_mem percent, ofBytes?_bytesOf]
  dsimp only
  rw [h.small, if_neg clean, if_neg filled]

theorem lower_lower (cs : List Char) : lower (lower cs) = lower cs := by
  unfold lower
  rw [List.map_map]
  exact List.map_congr_left fun c _ => Char.toLower_toLower_eq_toLower c

/-! ## Addresses -/

/-- The written form of an IPv4 address may stand where a domain name does. -/
theorem isName_ipv4 (value : Nat) : IsName (Ipv4.text value) := by
  have digits : ∀ d, d < 10 → isForbidden (Nat.digitChar d) = false ∧
      (Nat.digitChar d).toLower = Nat.digitChar d := by decide
  have each : ∀ c ∈ Ipv4.text value, isForbidden c = false ∧ c.toLower = c := by
    intro c mem
    rcases mem_dotted mem with rfl | ⟨d, small, rfl⟩
    · decide
    · exact digits d small
  refine ⟨fun c mem => (each c mem).1, ?_, ?_⟩
  · conv_rhs => rw [← List.map_id (Ipv4.text value)]
    exact List.map_congr_left fun c mem => (each c mem).2
  · rw [Ipv4.text_eq]
    exact List.append_ne_nil_of_left_ne_nil Nat.toDigits_ne_nil _

/-- A host that has been read is in brackets, an IPv4 address or a domain name. -/
theorem cases_of_read {text host : List Char} (read : Host.read text = .ok host) :
    (∃ pieces, pieces.length = 8 ∧ (∀ n ∈ pieces, n < 65536) ∧
      host = '[' :: (Ipv6.text pieces ++ [']'])) ∨
    (∃ value < 256 ^ 4, host = Ipv4.text value) ∨
    (IsName host ∧ Ipv4.endsInNumber host = false) := by
  unfold Host.read at read
  split at read
  case isTrue =>
    left
    split at read
    case isFalse => cases read
    case isTrue =>
      unfold Ipv6.read at read
      split at read
      case h_2 => cases read
      case h_1 pieces found =>
        cases read
        obtain ⟨eight, small⟩ := Ipv6.pieces?_spec found
        exact ⟨pieces, eight, small, rfl⟩
  case isFalse =>
    right
    split at read
    case h_1 => cases read
    case h_2 decoded _ =>
      dsimp only at read
      split at read
      · cases read
      case isFalse clean =>
        split at read
        · cases read
        case isFalse filled =>
          split at read
          case isTrue => exact .inl (Ipv4.read_of_read read)
          case isFalse noNumber =>
            cases read
            refine .inr ⟨⟨fun c mem => ?_, lower_lower decoded, ?_⟩, by simpa using noNumber⟩
            · rw [List.any_eq_true, not_exists] at clean
              simpa [mem] using clean c
            · rintro none
              rw [none] at filled
              exact filled rfl

/-- A host that has been read has one of the two shapes. -/
theorem shape_of_read {text host : List Char} (read : Host.read text = .ok host) : Shape host := by
  rcases cases_of_read read with ⟨pieces, -, -, rfl⟩ | ⟨value, -, rfl⟩ | ⟨name, -⟩
  · apply Shape.bracketed
    intro c mem
    rcases Ipv6.mem_text mem with rfl | ⟨d, small, rfl⟩
    · decide
    · exact isInside_digitChar small
  · exact (isName_ipv4 value).shape
  · exact name.shape

/-- The written form of a host is its own written form. -/
theorem read_of_read {text host : List Char} (read : Host.read text = .ok host) :
    Host.read host = .ok host := by
  rcases cases_of_read read with ⟨pieces, eight, small, rfl⟩ | ⟨value, small, rfl⟩ | ⟨name, noNumber⟩
  · have last : ('[' :: (Ipv6.text pieces ++ [']'])).getLast? = some ']' := by
      rw [← List.cons_append]
      exact List.getLast?_concat
    have inside : (('[' :: (Ipv6.text pieces ++ [']'])).drop 1).dropLast = Ipv6.text pieces := by
      simp
    rw [Host.read, if_pos List.head?_cons, if_pos last, inside, Ipv6.read, Ipv6.pieces?_text eight small]
    rfl
  · rw [(isName_ipv4 value).read, if_pos (Ipv4.endsInNumber_text value), Ipv4.read_text small]
  · rw [name.read, noNumber]
    rfl

/-! ## Where a host ends -/

theorem Shape.ne_nil {host : List Char} (shape : Shape host) : host ≠ [] := by
  cases shape with
  | bracketed => exact List.cons_ne_nil _ _
  | name some => exact some

/-- The characters of a host are visible, and none of them ends an authority. -/
theorem Shape.visible {host : List Char} (shape : Shape host) {c : Char} (mem : c ∈ host) :
    isVisible c = true ∧ c ∉ "#/?@\\".toList := by
  have inside (c : Char) (h : isInside c = true) : isVisible c = true ∧ c ∉ "#/?@\\".toList := by
    unfold isInside at h
    rw [Bool.and_eq_true] at h
    refine ⟨h.1, fun mem => ?_⟩
    have other := h.2
    simp only [Bool.not_eq_true', List.contains_eq_mem, decide_eq_false_iff_not] at other
    apply other
    simp at mem ⊢
    tauto
  cases shape with
  | bracketed all =>
    rcases List.mem_cons.mp mem with rfl | mem
    · decide
    · rcases List.mem_append.mp mem with mem | mem
      · exact inside c (all c mem)
      · rw [List.mem_singleton.mp mem]
        decide
  | name _ all => exact inside c (all c mem)

end Host

end ModuleLinker.Url
