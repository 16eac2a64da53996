import ModuleLinker.Proofs.Graph.Walk

/-!
# Graphs that cannot be told apart

Two graphs with the same entry and the same records answer everything alike: the order in which the
records were put in is not to be seen.
-/

set_option autoImplicit false

namespace ModuleLinker.Graph

variable {U : Type}

/-- Two graphs with the same records, which have them under the same modules, list the modules in the
same order, and are walked over in the same order. -/
structure Same (g g' : Graph U) : Prop where
  entry : g.entry = g'.entry
  records : g.records.Perm g'.records
  get? : ∀ s, g.get? s = g'.get? s
  specifiers : g.specifiers = g'.specifiers
  walk : g.walk = g'.walk

/-- A walk depends only on what is found under modules. -/
theorem walkFrom_congr {g g' : Graph U} (get? : ∀ s, g.get? s = g'.get? s)
    (stack visited : List Specifier) : g.walkFrom stack visited = g'.walkFrom stack visited := by
  fun_induction walkFrom g stack visited with
  | case1 visited => rw [walkFrom]
  | case2 s stack visited met ih => rw [ih, walkFrom, dif_pos met]
  | case3 s stack visited fresh none ih =>
    rw [ih, walkFrom, dif_neg fresh]
    rw [get?] at none
    split
    case h_1 => rfl
    case h_2 r found =>
      rw [none] at found
      cases found
  | case4 s stack visited fresh r found ih =>
    have met : g'.walkFrom (s :: stack) visited =
        r :: g'.walkFrom (r.dependencies ++ stack) (s :: visited) := by
      rw [walkFrom, dif_neg fresh]
      rw [get?] at found
      split
      case h_1 none =>
        rw [none] at found
        cases found
      case h_2 r' found' =>
        rw [found] at found'
        cases found'
        rfl
    rw [ih, met]

/-- Lists of modules in the order of their texts are the same if they have the same modules. -/
theorem mergeSort_eq {l l' : List Specifier} (perm : l.Perm l')
    (apart : ∀ s ∈ l, ∀ t ∈ l, s.text = t.text → s = t) :
    (l.mergeSort fun a b => a.text ≤ b.text) = l'.mergeSort fun a b => a.text ≤ b.text := by
  have sorted (l : List Specifier) :
      (l.mergeSort fun a b => a.text ≤ b.text).Pairwise fun a b => a.text ≤ b.text := by
    have pairwise : (l.mergeSort fun a b => decide (a.text ≤ b.text)).Pairwise
        fun a b => decide (a.text ≤ b.text) = true := by
      apply List.pairwise_mergeSort
      · intro a b c ab bc
        simp only [decide_eq_true_eq] at ab bc ⊢
        exact String.le_trans ab bc
      · intro a b
        simp only [Bool.or_eq_true, decide_eq_true_eq]
        exact String.le_total a.text b.text
    exact pairwise.imp fun le => by simpa using le
  refine List.Perm.eq_of_pairwise ?_ (sorted l) (sorted l') ?_
  · intro a b mem mem' ab ba
    have inside : b ∈ l := perm.mem_iff.mpr (List.mem_mergeSort.mp mem')
    exact apart a (List.mem_mergeSort.mp mem) b inside (String.le_antisymm ab ba)
  · exact (List.mergeSort_perm l _).trans (perm.trans (List.mergeSort_perm l' _).symm)

/-- Graphs of the same entry with the same records cannot be told apart, where no two records are of
one module and modules are told apart by their texts. -/
theorem same_of_mem_iff {g g' : Graph U} (entry : g.entry = g'.entry) (unique : g.keys.Nodup)
    (unique' : g'.keys.Nodup) (apart : ∀ s ∈ g.keys, ∀ t ∈ g.keys, s.text = t.text → s = t)
    (mem : ∀ r, r ∈ g.records ↔ r ∈ g'.records) : g.Same g' := by
  have records : g.records.Perm g'.records :=
    (List.perm_ext_iff_of_nodup (.of_map _ unique) (.of_map _ unique')).mpr mem
  have get? (s : Specifier) : g.get? s = g'.get? s := by
    apply Option.ext
    intro r
    rw [get?_eq_some_iff unique, get?_eq_some_iff unique', mem]
  constructor
  case entry => exact entry
  case records => exact records
  case get? => exact get?
  case specifiers => exact mergeSort_eq (records.map _) apart
  case walk => rw [walk, walk, walkFrom_congr get?, entry]

end ModuleLinker.Graph
