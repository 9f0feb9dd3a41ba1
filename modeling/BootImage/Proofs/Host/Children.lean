import BootImage.Proofs.Checks
import BootImage.Proofs.Host.Growth

/-!
# The names in a directory

A directory is listed by going through all places of the tree. Those that lie in the directory come
in the order of their last names, since they have all other names in common. So a listing is in
ascending order of names, whatever was put into the tree first, and no name is in it twice.

## Main definitions

* `FileTree.Lists`: the names of the files in a directory, in ascending order.

## Main results

* `FileTree.pairwise_childrenAt`, `FileTree.mem_childrenAt`: the names at a place.
* `FileTree.lists_filesIn`: the files in a directory are listed.
-/

namespace BootImage

/-- Filtering with a test that can fail: where no test does, it is filtering. -/
theorem eq_filter_of_filterM {ε α : Type} [DecidableEq ε] {p : α → Except ε Bool} {l l' : List α}
    (h : l.filterM p = .ok l') : l' = l.filter fun a => p a = .ok true := by
  have haux : ∀ (l seen : List α) {found : List α}, List.filterAuxM p l seen = .ok found →
      found = (l.filter fun a => p a = .ok true).reverse ++ seen := by
    intro l
    induction l with
    | nil =>
      intro seen found hfound
      cases hfound
      rfl
    | cons a l ih =>
      intro seen found hfound
      obtain ⟨b, hb, hfound⟩ := ok_of_bind hfound
      rw [ih _ hfound]
      cases b with
      | false => rw [List.filter_cons_of_neg (by simp [hb]), cond_false]
      | true => rw [List.filter_cons_of_pos (by simp [hb]), cond_true]; simp
  obtain ⟨found, hfound, hreverse⟩ := ok_of_bind h
  cases hreverse
  rw [haux l [] hfound]
  simp

namespace Host.FileTree

variable {t : FileTree} {p : Path} {place names : List String} {name : String}

/-- Places that have all but their last names in common come in the order of these. -/
theorem lt_of_compare_concat {a b : String} (here : List String)
    (h : compare (here ++ [a]) (here ++ [b]) = .lt) : a < b := by
  change List.compareLex compare (here ++ [a]) (here ++ [b]) = .lt at h
  induction here with
  | nil =>
    rw [List.nil_append, List.nil_append, List.compareLex_cons_cons, List.compareLex_nil_nil,
      Ordering.then_eq] at h
    exact compareOfLessAndEq_eq_lt.1 h
  | cons name here ih =>
    have hself : compare name name = .eq := Std.ReflCmp.compare_self
    rw [List.cons_append, List.cons_append, List.compareLex_cons_cons, hself,
      Ordering.eq_then] at h
    exact ih h

/-- A place lies in a directory just if its last name comes after those of the directory. -/
theorem dropLast_and_getLast?_iff {other : List String} :
    other.dropLast = place ∧ other.getLast? = some name ↔ other = place ++ [name] := by
  constructor
  · rintro ⟨hdrop, hlast⟩
    obtain ⟨here, rfl⟩ := List.getLast?_eq_some_iff.1 hlast
    rw [List.dropLast_concat] at hdrop
    rw [hdrop]
  · rintro rfl
    exact ⟨List.dropLast_concat, List.getLast?_concat⟩

/-- The names at a place are in ascending order. -/
theorem pairwise_childrenAt (t : FileTree) (place : List String) :
    (t.childrenAt place).Pairwise (· < ·) := by
  refine List.pairwise_filterMap.2 (Std.TreeMap.ordered_keys_toList.imp ?_)
  rintro ⟨x, _⟩ ⟨y, _⟩ hlt a ha b hb
  simp only [Option.ite_none_right_eq_some, dropLast_and_getLast?_iff] at ha hb
  subst ha hb
  exact lt_of_compare_concat place hlt

theorem mem_childrenAt : name ∈ t.childrenAt place ↔ (t.node? (place ++ [name])).isSome := by
  rw [childrenAt, List.mem_filterMap, node?, Option.isSome_iff_exists]
  constructor
  · rintro ⟨⟨other, node⟩, hmem, hname⟩
    simp only [Option.ite_none_right_eq_some, dropLast_and_getLast?_iff] at hname
    subst hname
    exact ⟨node, Std.TreeMap.mem_toList_iff_getElem?_eq_some.1 hmem⟩
  · rintro ⟨node, hnode⟩
    exact ⟨_, Std.TreeMap.mem_toList_iff_getElem?_eq_some.2 hnode, by simp⟩

/-- The names of the files in a directory, in ascending order. What is no directory has none. -/
structure Lists (t : FileTree) (p : Path) (names : List String) : Prop where
  ascending : names.Pairwise (· < ·)
  mem : ∀ name, name ∈ names ↔ ∃ place, t.locate p = .ok place ∧
    (t.node? (place ++ [name])).isSome ∧ t.isFile (p.join ⟨"", [name]⟩) = .ok true

theorem lists_filesIn (h : t.filesIn p = .ok names) : t.Lists p names := by
  rw [filesIn] at h
  split at h
  · rename_i place hplace
    obtain rfl := eq_filter_of_filterM h
    refine ⟨(pairwise_childrenAt t place).filter _, fun name => ?_⟩
    rw [List.mem_filter, mem_childrenAt, decide_eq_true_iff, hplace]
    constructor
    · rintro ⟨hnode, hfile⟩
      exact ⟨place, rfl, hnode, hfile⟩
    · rintro ⟨_, ⟨⟩, hnode, hfile⟩
      exact ⟨hnode, hfile⟩
  · rename_i fault hfault
    cases h
    refine ⟨.nil, fun name => ?_⟩
    simp [hfault]

/-- A path leads to a file just if it can be read. -/
theorem isFile_eq_true_iff : t.isFile p = .ok true ↔ ∃ c, t.read p = .ok c := by
  constructor
  · intro h
    rw [isFile, probe] at h
    cases hplace : t.locate p with
    | error fault =>
      rw [hplace] at h
      cases fault <;> cases h
    | ok place =>
      rw [hplace] at h
      cases hnode : t.node? place with
      | none =>
        simp only [hnode, bind, Except.bind] at h
        cases h
      | some node =>
        simp only [hnode, bind, Except.bind] at h
        cases node with
        | directory => cases h
        | file c executable =>
          exact ⟨c, read_eq_ok.2 ⟨place, hplace, content?_eq_some.2 ⟨executable, hnode⟩⟩⟩
  · rintro ⟨c, hread⟩
    exact isFile_of_read hread

end Host.FileTree

end BootImage
