import BootImage.Proofs.Fat.FileTree
import BootImage.Proofs.Fat.Naming
import Mathlib.Data.List.Find

/-!
# Paths through a catalog

A catalog is flat; followed from the root by name it is a tree. A name may mean one entry or another
if it is read like an alias of a name that was used elsewhere. Every other name means the one
record, if any, whose name is read like it, provided that the records of each folder are told apart
by what is read of them, which is what `Folder.Named` says. Names with the mark of an alias are left
aside in the tree.

No directory is in two places, since its clusters belong to one record. A change to a folder is
therefore a change at one place of the tree.

## Main definitions

* `Contested`: whether an alias of one name is read like another.
* `Folder.look`: the record whose name is read like a key.
* `Folder.Named`: the names of a folder are legible, and told apart.
* `Catalog.dirAt`, `Catalog.nodes`: the directory and the node at a place.

## Main results

* `Catalog.dirAt_injective`: a directory is in one place.
* `Catalog.nodes_withFolder`, `Catalog.nodes_replace`: a record more or less is a node more or less.
-/

namespace BootImage.Fat

/-- What is read of the name of a record, in the form in which names are compared. -/
def Record.key (r : Record) : Key :=
  Fat.key r.spelling.shown

/-- The node of a record. -/
def Record.node (r : Record) : Node where
  spelling := r.spelling.shown
  bytes := if r.body.isFolder then none else some r.body.bytes

/-- A key is contested by the names of a certain kind if it is how an alias of one of them is read,
while the name itself is another. -/
def Contested (P : String → Prop) (k : Key) : Prop :=
  ∃ name, P name ∧ key name ≠ k ∧ HasAlias name k

theorem Contested.hasMark {P : String → Prop} {k : Key} (h : Contested P k) :
    hasMark k = true := by
  obtain ⟨name, -, -, halias⟩ := h
  exact halias.hasMark

/-- The names that are used in a volume, each of which is read back up to case, and the keys that
are left aside: at least those that the names contest. -/
structure Usage where
  used : String → Prop
  aside : Key → Bool
  legible : ∀ name, used name → Legible name.toList
  covers : ∀ k, Contested used k → aside k = true

theorem Usage.not_contested (U : Usage) {k : Key} (h : U.aside k = false) :
    ¬ Contested U.used k := by
  intro hcontested
  rw [U.covers k hcontested] at h
  cases h

/-- The usage that leaves aside all keys with the mark of an alias. -/
def Usage.marked (used : String → Prop) (legible : ∀ name, used name → Legible name.toList) :
    Usage where
  used
  aside := hasMark
  legible
  covers _ h := h.hasMark

/-- The usage that leaves aside only the keys that are contested. -/
noncomputable def Usage.exactly {used : String → Prop}
    (legible : ∀ name, used name → Legible name.toList) : Usage where
  used
  aside k := @decide (Contested used k) (Classical.propDecidable _)
  legible
  covers _ h := @decide_eq_true _ (Classical.propDecidable _) h

theorem Usage.aside_exactly {used : String → Prop}
    (legible : ∀ name, used name → Legible name.toList) (k : Key) (h : ¬ Contested used k) :
    (Usage.exactly legible).aside k = false :=
  @decide_eq_false _ (Classical.propDecidable _) h

/-! ### One folder -/

namespace Folder

/-- The record whose name is read like a key. A key that is left aside stands for none. -/
def look (f : Folder) (U : Usage) (k : Key) : Option (Nat × Record) :=
  if U.aside k then none else f.records.find? fun x => x.2.key == k

/-- Every name of a folder was chosen for one that is used, and two names are not read alike unless
they are contested. -/
structure Named (U : Usage) (f : Folder) : Prop where
  chosen : ∀ x ∈ f.records, ∃ name taken, U.used name ∧ spellingOf name taken = .ok x.2.spelling
  unique : ∀ x ∈ f.records, ∀ y ∈ f.records, ¬ Contested U.used x.2.key → x.2.key = y.2.key → x = y

variable {U : Usage} {f f' : Folder} {n : Nat} {r : Record} {k : Key} {x : Nat × Record}

theorem key_of_look (h : f.look U k = some x) :
    x ∈ f.records ∧ x.2.key = k ∧ U.aside k = false := by
  rw [look] at h
  split at h
  · cases h
  · rename_i hmark
    have hkey := List.find?_some h
    exact ⟨List.mem_of_find?_eq_some h, by simpa using hkey, by simpa using hmark⟩

theorem look_eq_none (h : ∀ x ∈ f.records, x.2.key = k → U.aside k = true) : f.look U k = none := by
  cases hlook : f.look U k with
  | none => rfl
  | some x =>
    obtain ⟨hx, hkey, hmark⟩ := key_of_look hlook
    rw [h x hx hkey] at hmark
    cases hmark

theorem Named.look_eq (h : f.Named U) (hx : x ∈ f.records) (hmark : U.aside x.2.key = false) :
    f.look U x.2.key = some x := by
  have hsome : (f.records.find? fun y => y.2.key == x.2.key).isSome := by
    rw [List.find?_isSome]
    exact ⟨x, hx, by simp⟩
  obtain ⟨y, hy⟩ := Option.isSome_iff_exists.1 hsome
  have hkey : y.2.key = x.2.key := by simpa using List.find?_some hy
  rw [look, if_neg (by simp [hmark]), hy,
    h.unique x hx y (List.mem_of_find?_eq_some hy) (U.not_contested hmark) hkey.symm]

/-- A record answers to a key that is not contested just if its name is read like it. -/
theorem Named.answersTo (h : f.Named U) (hx : x ∈ f.records) (hfree : ¬ Contested U.used k) :
    Disk.answersTo k (x.2.entry x.1) = (x.2.key == k) := by
  obtain ⟨name, taken, hused, hs⟩ := h.chosen x hx
  have hkey : x.2.key = Fat.key name := fold_shown hs (U.legible name hused)
  by_cases heq : x.2.key = k
  · have hentry : Disk.answersTo k (x.2.entry x.1) = (x.2.key == k ||
        Text.fold (shortDisplay x.2.spelling.short 0).toList == k) := rfl
    rw [hentry, heq, beq_self_eq_true, Bool.true_or]
  · exact answersTo_entry hs (fun halias => hfree ⟨name, hused, hkey ▸ heq, halias⟩) x.1

/-- A name without a mark finds the record whose name is read like it. -/
theorem Named.find_eq (h : f.Named U) {name : String} (hmark : U.aside (Fat.key name) = false) :
    f.find name = f.look U (Fat.key name) := by
  rw [find, look, if_neg (by simp [hmark])]
  exact List.find?_congr fun x hx => h.answersTo hx (U.not_contested hmark)

/-- A name that finds nothing is not how the name of a record is read. -/
theorem key_ne_of_find_eq_none {name : String} (h : f.find name = none) (hx : x ∈ f.records) :
    x.2.key ≠ Fat.key name := by
  intro heq
  rw [find, List.find?_eq_none] at h
  refine h x hx ?_
  have hentry : Disk.answersTo (Text.fold name.toList) (x.2.entry x.1) =
      (x.2.key == Fat.key name ||
        Text.fold (shortDisplay x.2.spelling.short 0).toList == Fat.key name) := rfl
  rw [hentry, heq, beq_self_eq_true, Bool.true_or]

/-- No two records answer to a key that is not contested. -/
theorem Named.eq_of_answersTo (h : f.Named U) (hfree : ¬ Contested U.used k) {y : Nat × Record}
    (hx : x ∈ f.records) (hy : y ∈ f.records)
    (hanswers : Disk.answersTo k (x.2.entry x.1) = true)
    (hanswers' : Disk.answersTo k (y.2.entry y.1) = true) : x = y := by
  rw [h.answersTo hx hfree, beq_iff_eq] at hanswers
  rw [h.answersTo hy hfree, beq_iff_eq] at hanswers'
  exact h.unique x hx y hy (hanswers ▸ hfree) (hanswers.trans hanswers'.symm)

/-- What is read of the name of a record finds the record, unless it is contested. -/
theorem Named.find_shown (h : f.Named U) (hx : x ∈ f.records) (hfree : ¬ Contested U.used x.2.key) :
    f.find x.2.spelling.shown = some x := by
  have hanswers : Disk.answersTo x.2.key (x.2.entry x.1) = true := by
    rw [h.answersTo hx hfree, beq_self_eq_true]
  cases hfind : f.find x.2.spelling.shown with
  | none => exact absurd rfl (key_ne_of_find_eq_none hfind hx)
  | some y =>
    rw [find] at hfind
    have hanswers' := List.find?_some hfind
    rw [h.eq_of_answersTo hfree hx (List.mem_of_find?_eq_some hfind) hanswers hanswers']

/-- A record more is found by its key, and the others as before. -/
theorem Named.look_of_adds (h : f.Named U) (h' : f'.Named U) (hadds : f.Adds n r f')
    (hmark : U.aside r.key = false) (k : Key) :
    f'.look U k = if k = r.key then some (n, r) else f.look U k := by
  have hnew : (n, r) ∈ f'.records := hadds.mem_iff.2 (.inl rfl)
  by_cases hk : k = r.key
  · have hlook := h'.look_eq hnew hmark
    rw [if_pos hk, hk, ← hlook]
  · rw [if_neg hk]
    cases hlook : f.look U k with
    | some x =>
      obtain ⟨hx, rfl, hmark'⟩ := key_of_look hlook
      exact h'.look_eq (hadds.mem_iff.2 (.inr hx)) hmark'
    | none =>
      refine look_eq_none fun x hx hkey => ?_
      rcases hadds.mem_iff.1 hx with rfl | hx
      · exact absurd hkey.symm hk
      · rw [← Bool.not_eq_false]
        intro hmark'
        rw [← hkey] at hmark' hlook
        rw [h.look_eq hx hmark'] at hlook
        cases hlook

/-- A record can be added under a name that is not how another is read, unless it is contested. -/
theorem Named.add (h : f.Named U) {name : String} {taken : Bytes → Bool} (hadds : f.Adds n r f')
    (hs : spellingOf name taken = .ok r.spelling) (hname : U.used name)
    (hfree : ∀ x ∈ f.records, x.2.key = Fat.key name → Contested U.used (Fat.key name)) :
    f'.Named U := by
  have hkey : r.key = Fat.key name := fold_shown hs (U.legible name hname)
  have hold : ∀ x ∈ f.records, ¬ Contested U.used x.2.key → x.2.key ≠ r.key := by
    intro x hx hfree' heq
    rw [heq, hkey] at hfree'
    exact hfree' (hfree x hx (heq.trans hkey))
  constructor
  · intro x hx
    rcases hadds.mem_iff.1 hx with rfl | hx
    · exact ⟨name, taken, hname, hs⟩
    · exact h.chosen x hx
  · intro x hx y hy hfree' heq
    rcases hadds.mem_iff.1 hx with rfl | hx
    · rcases hadds.mem_iff.1 hy with rfl | hy
      · rfl
      · exact absurd heq.symm (hold y hy (heq ▸ hfree'))
    · rcases hadds.mem_iff.1 hy with rfl | hy
      · exact absurd heq (hold x hx hfree')
      · exact h.unique x hx y hy hfree' heq

theorem Named.remove (h : f'.Named U) (hadds : f.Adds n r f') : f.Named U :=
  ⟨fun x hx => h.chosen x (hadds.mem_iff.2 (.inr hx)), fun x hx y hy =>
    h.unique x (hadds.mem_iff.2 (.inr hx)) y (hadds.mem_iff.2 (.inr hy))⟩

/-- Without the record that a name finds, no record is read like the name unless it is contested. -/
theorem Named.contested_of_find (h : f'.Named U) (hadds : f.Adds n r f')
    (hnew : (n, r) ∉ f.records) {name : String} (hfind : f'.find name = some (n, r))
    (hx : x ∈ f.records) (hkey : x.2.key = Fat.key name) : Contested U.used (Fat.key name) := by
  by_contra hfree
  have hr : (n, r) ∈ f'.records := hadds.mem_iff.2 (.inl rfl)
  have hrkey : r.key = Fat.key name := by
    rw [find] at hfind
    have hanswers := List.find?_some hfind
    exact eq_of_beq ((h.answersTo hr hfree).symm.trans hanswers)
  have heq := h.unique x (hadds.mem_iff.2 (.inr hx)) (n, r) hr (hkey ▸ hfree)
    (hkey.trans hrkey.symm)
  exact hnew (heq ▸ hx)

end Folder

/-! ### All folders -/

namespace Catalog

/-- The names of every folder are legible, and told apart. -/
def Named (U : Usage) (G : Catalog) : Prop :=
  ∀ dir f, G dir = some f → f.Named U

/-- The directory with a key in a directory. -/
def enter (G : Catalog) (U : Usage) (dir : Nat) (k : Key) : Option Nat :=
  ((G dir).bind (·.look U k)).bind fun x => if x.2.body.isFolder then some x.2.body.first else none

/-- The directory at a place below a directory. -/
def dirAt (G : Catalog) (U : Usage) : (dir : Nat) → (place : List Key) → Option Nat
  | dir, [] => some dir
  | dir, k :: place => (G.enter U dir k).bind fun c => G.dirAt U c place

/-- The nodes of the tree below a directory. -/
def nodes (G : Catalog) (U : Usage) (root : Nat) : Nodes := fun place =>
  place.getLast?.bind fun k => (G.dirAt U root place.dropLast).bind fun dir =>
    ((G dir).bind (·.look U k)).map (·.2.node)

variable {U : Usage} {G : Catalog} {root dir c n : Nat} {f f' : Folder} {r : Record} {k : Key}
  {place place' : List Key}

theorem dirAt_append (G : Catalog) (U : Usage) (dir : Nat) (place place' : List Key) :
    G.dirAt U dir (place ++ place') = (G.dirAt U dir place).bind fun c => G.dirAt U c place' := by
  induction place generalizing dir with
  | nil => rfl
  | cons k place ih =>
    rw [List.cons_append, dirAt, dirAt, Option.bind_assoc]
    congr 1
    funext c
    exact ih c

theorem dirAt_concat (G : Catalog) (U : Usage) (dir : Nat) (place : List Key) (k : Key) :
    G.dirAt U dir (place ++ [k]) = (G.dirAt U dir place).bind fun c => G.enter U c k := by
  rw [dirAt_append]
  congr 1
  funext c
  rw [dirAt]
  cases G.enter U c k <;> rfl

theorem nodes_nil (G : Catalog) (U : Usage) (root : Nat) : G.nodes U root [] = none := rfl

theorem nodes_concat (G : Catalog) (U : Usage) (root : Nat) (place : List Key) (k : Key) :
    G.nodes U root (place ++ [k]) = (G.dirAt U root place).bind fun dir =>
      ((G dir).bind (·.look U k)).map (·.2.node) := by
  rw [nodes, List.getLast?_concat, List.dropLast_concat, Option.bind_some]

/-- Where a directory is known, a path with one key more is told by its folder. -/
theorem dirAt_below (hdir : G.dirAt U root place = some dir) (hf : G dir = some f) (k : Key) :
    G.dirAt U root (place ++ [k]) =
      (f.look U k).bind fun x => if x.2.body.isFolder then some x.2.body.first else none := by
  rw [dirAt_concat, hdir, Option.bind_some, enter, hf, Option.bind_some]

theorem nodes_below (hdir : G.dirAt U root place = some dir) (hf : G dir = some f) (k : Key) :
    G.nodes U root (place ++ [k]) = (f.look U k).map (·.2.node) := by
  rw [nodes_concat, hdir, Option.bind_some, hf, Option.bind_some]

theorem enter_eq_some (h : G.enter U dir k = some c) : ∃ f n s, G dir = some f ∧
    f.look U k = some (n, ⟨s, .folder c⟩) := by
  rw [enter, Option.bind_eq_some_iff] at h
  obtain ⟨⟨n, s, b⟩, hx, hc⟩ := h
  obtain ⟨f, hf, hlook⟩ := Option.bind_eq_some_iff.1 hx
  cases b with
  | folder c' =>
    obtain rfl : c' = c := by simpa [Body.isFolder, Body.first] using hc
    exact ⟨f, n, s, hf, hlook⟩
  | file => simp [Body.isFolder] at hc

/-- A directory is at a place just if the tree has one there. -/
theorem isFolder_nodes_iff :
    (G.nodes U root).IsFolder place ↔ ∃ c, G.dirAt U root place = some c := by
  rw [Nodes.IsFolder]
  rcases List.eq_nil_or_concat' place with rfl | ⟨place, k, rfl⟩
  · exact ⟨fun _ => ⟨root, rfl⟩, fun _ => .inl rfl⟩
  rw [nodes_concat, dirAt_concat]
  constructor
  · rintro (hnil | ⟨spelling, h⟩)
    · simp at hnil
    · obtain ⟨dir, hdir, h⟩ := Option.bind_eq_some_iff.1 h
      obtain ⟨x, hx, hnode⟩ := Option.map_eq_some_iff.1 h
      have hfolder : x.2.body.isFolder = true := by
        by_contra hfile
        have := congrArg Node.bytes hnode
        rw [Record.node, if_neg hfile] at this
        cases this
      refine ⟨x.2.body.first, ?_⟩
      rw [hdir, Option.bind_some, enter, hx, Option.bind_some, if_pos hfolder]
  · rintro ⟨c, h⟩
    obtain ⟨dir, hdir, h⟩ := Option.bind_eq_some_iff.1 h
    obtain ⟨f, n, s, hf, hlook⟩ := enter_eq_some h
    refine .inr ⟨s.shown, ?_⟩
    rw [hdir, Option.bind_some, hf, Option.bind_some, hlook]
    rfl

/-- The bytes at a place are those of a record. -/
theorem exists_record_of_nodes {spelling : String} {bytes : Bytes}
    (h : G.nodes U root place = some ⟨spelling, some bytes⟩) :
    ∃ dir f n s c, G dir = some f ∧ (n, ⟨s, .file c bytes⟩) ∈ f.records := by
  rcases List.eq_nil_or_concat' place with rfl | ⟨place, k, rfl⟩
  · cases h
  rw [nodes_concat] at h
  obtain ⟨dir, -, h⟩ := Option.bind_eq_some_iff.1 h
  obtain ⟨⟨n, s, b⟩, hx, hnode⟩ := Option.map_eq_some_iff.1 h
  obtain ⟨f, hf, hlook⟩ := Option.bind_eq_some_iff.1 hx
  cases b with
  | folder c => cases congrArg Node.bytes hnode
  | file c bytes' =>
    cases congrArg Node.bytes hnode
    exact ⟨dir, f, n, s, c, hf, (Folder.key_of_look hlook).1⟩

/-- Names without a mark lead to the directory at their place. -/
theorem Named.descend_eq (h : G.Named U) {names : List String}
    (hmark : ∀ name ∈ names, U.aside (key name) = false) (dir : Nat) :
    G.descend dir names = G.dirAt U dir (names.map key) := by
  induction names generalizing dir with
  | nil => rfl
  | cons name names ih =>
    rw [List.forall_mem_cons] at hmark
    rw [List.map_cons, descend, dirAt, enter]
    cases hf : G dir with
    | none => rfl
    | some f =>
      rw [Option.bind_some, Option.bind_some, (h dir f hf).find_eq hmark.1]
      cases f.look U (key name) with
      | none => rfl
      | some x =>
        rw [Option.bind_some]
        by_cases hfolder : x.2.body.isFolder = true
        · simp only [hfolder, if_true, Option.bind_some]
          exact ih hmark.2 _
        · simp only [hfolder]
          rfl

/-! ### One place for each directory -/

/-- A directory at a place is in the catalog. -/
theorem Held.exists_folder (h : G.Held root) (hdir : G.dirAt U root place = some c) :
    ∃ f, G c = some f := by
  obtain ⟨d, K, loose, hholds, rfl⟩ := h
  rcases List.eq_nil_or_concat' place with rfl | ⟨place, k, rfl⟩
  · cases hdir
    obtain ⟨f, hf, -⟩ := hholds.root
    exact ⟨f, hf⟩
  · rw [dirAt_concat] at hdir
    obtain ⟨dir, -, henter⟩ := Option.bind_eq_some_iff.1 hdir
    obtain ⟨f, n, s, hf, hlook⟩ := enter_eq_some henter
    obtain ⟨-, g, hg, -⟩ := hholds.body dir f n _ hf (Folder.key_of_look hlook).1
    exact ⟨g, hg⟩

/-- A directory is in one place. -/
theorem Held.dirAt_injective (h : G.Held root) (hplace : G.dirAt U root place = some c)
    (hplace' : G.dirAt U root place' = some c) : place = place' := by
  obtain ⟨d, K, loose, hholds, rfl⟩ := h
  -- The last step to a directory is through the record that owns it.
  have hstarts : ∀ {place k c}, G.dirAt U d.volume.geometry.rootCluster (place ++ [k]) = some c →
      c ≠ 0 ∧ ∃ dir f n s, G.dirAt U d.volume.geometry.rootCluster place = some dir ∧
        G dir = some f ∧ f.look U k = some (n, ⟨s, .folder c⟩) ∧
        G.Starts d.volume.geometry.rootCluster (some (dir, n)) c := by
    intro place k c hc
    rw [dirAt_concat] at hc
    obtain ⟨dir, hdir, henter⟩ := Option.bind_eq_some_iff.1 hc
    obtain ⟨f, n, s, hf, hlook⟩ := enter_eq_some henter
    have hr := (Folder.key_of_look hlook).1
    have hstart : G.Starts d.volume.geometry.rootCluster (some (dir, n)) c := .record hf hr
    exact ⟨(hholds.body dir f n _ hf hr).1, dir, f, n, s, hdir, hf, hlook, hstart⟩
  induction place using List.reverseRecOn generalizing place' c with
  | nil =>
    cases hplace
    rcases List.eq_nil_or_concat' place' with rfl | ⟨place', k, rfl⟩
    · rfl
    · obtain ⟨hne, dir, f, n, s, -, -, -, hstart⟩ := hstarts hplace'
      cases hholds.owner_unique hne .root hstart
  | append_singleton place k ih =>
    obtain ⟨hne, dir, f, n, s, hdir, hf, hlook, hstart⟩ := hstarts hplace
    rcases List.eq_nil_or_concat' place' with rfl | ⟨place', k', rfl⟩
    · cases hplace'
      cases hholds.owner_unique hne .root hstart
    · obtain ⟨-, dir', f', n', s', hdir', hf', hlook', hstart'⟩ := hstarts hplace'
      cases hholds.owner_unique hne hstart hstart'
      cases hf.symm.trans hf'
      obtain ⟨_, _, _, hstands⟩ := hholds.exists_owner hf
      obtain ⟨hr, rfl, -⟩ := Folder.key_of_look hlook
      obtain ⟨hr', rfl, -⟩ := Folder.key_of_look hlook'
      rw [ih hdir hdir', hstands.eq_of_number hr hr']

/-! ### A record more -/

/-- Entering a directory where a folder has a record more. -/
theorem enter_withFolder (up : Nat) (hf : G dir = some f)
    (hb : ∀ c, r.body = .folder c → G c = none)
    (hnamed : f.Named U) (hnamed' : f'.Named U) (hadds : f.Adds n r f')
    (hmark : U.aside r.key = false) {y : Nat} {g : Folder} (hg : G y = some g) (k : Key) :
    (G.withFolder dir up f' r.body).enter U y k =
      if y = dir ∧ k = r.key then (if r.body.isFolder then some r.body.first else none)
      else G.enter U y k := by
  have hg' := withFolder_of_some dir up f' hb hg
  rw [enter, enter, hg', hg]
  by_cases hy : y = dir
  · subst hy
    cases hf.symm.trans hg
    rw [if_pos rfl, Option.bind_some, Option.bind_some, hnamed.look_of_adds hnamed' hadds hmark]
    by_cases hk : k = r.key
    · rw [if_pos hk, if_pos ⟨rfl, hk⟩]
      rfl
    · rw [if_neg hk, if_neg (hk ·.2)]
  · rw [if_neg hy, if_neg (hy ·.1)]

/-- The directories of the catalog with a record more: those there were, and the new one. -/
theorem dirAt_withFolder (up : Nat) (h : G.Held root) (hf : G dir = some f)
    (hb : ∀ c, r.body = .folder c → G c = none) (hnamed : f.Named U) (hnamed' : f'.Named U)
    (hadds : f.Adds n r f') (hmark : U.aside r.key = false) (hnone : f.look U r.key = none)
    (hdir : G.dirAt U root place = some dir) (place' : List Key) (c : Nat) :
    (G.withFolder dir up f' r.body).dirAt U root place' = some c ↔
      G.dirAt U root place' = some c ∨ r.body = .folder c ∧ place' = place ++ [r.key] := by
  have henter : ∀ {y g}, G y = some g → ∀ k, _ := fun hg k =>
    enter_withFolder up hf hb hnamed hnamed' hadds hmark hg k
  have hold : ∀ place' c, G.dirAt U root place' = some c →
      (G.withFolder dir up f' r.body).dirAt U root place' = some c := by
    intro place' c hc
    induction place' using List.reverseRecOn generalizing c with
    | nil => exact hc
    | append_singleton place' k ih =>
      rw [dirAt_concat] at hc
      obtain ⟨y, hy, hc⟩ := Option.bind_eq_some_iff.1 hc
      obtain ⟨g, hg⟩ := h.exists_folder hy
      rw [dirAt_concat, ih y hy, Option.bind_some, henter hg, if_neg]
      · exact hc
      · rintro ⟨rfl, rfl⟩
        obtain ⟨g', _, _, hg', hlook⟩ := enter_eq_some hc
        cases hf.symm.trans hg'
        rw [hnone] at hlook
        cases hlook
  constructor
  · intro hc
    induction place' using List.reverseRecOn generalizing c with
    | nil => exact .inl hc
    | append_singleton place' k ih =>
      rw [dirAt_concat] at hc
      obtain ⟨y, hnew, hc⟩ := Option.bind_eq_some_iff.1 hc
      rcases ih y hnew with hy | ⟨hbody, -⟩
      · obtain ⟨g, hg⟩ := h.exists_folder hy
        rw [henter hg] at hc
        split at hc
        · rename_i heq
          rw [heq.1] at hy
          rw [h.dirAt_injective hy hdir, heq.2]
          split at hc
          · rename_i hfolder
            cases hc
            exact .inr ⟨Body.eq_folder_of_isFolder hfolder, rfl⟩
          · cases hc
        · left
          rw [dirAt_concat, hy, Option.bind_some, hc]
      · obtain ⟨g, _, _, hg, hlook⟩ := enter_eq_some hc
        rw [withFolder, if_pos hbody] at hg
        cases hg
        exact absurd (Folder.key_of_look hlook).1 (by simp)
  · rintro (hc | ⟨hbody, rfl⟩)
    · exact hold place' c hc
    · rw [dirAt_concat, hold place dir hdir, Option.bind_some, henter hf, if_pos ⟨rfl, rfl⟩, hbody]
      rfl

/-- A record more is a node more. -/
theorem nodes_withFolder (up : Nat) (h : G.Held root) (hf : G dir = some f)
    (hb : ∀ c, r.body = .folder c → G c = none) (hnamed : f.Named U) (hnamed' : f'.Named U)
    (hadds : f.Adds n r f') (hmark : U.aside r.key = false) (hnone : f.look U r.key = none)
    (hdir : G.dirAt U root place = some dir) :
    (G.withFolder dir up f' r.body).nodes U root =
      (G.nodes U root).put (place ++ [r.key]) (some r.node) := by
  have hdirs := dirAt_withFolder up h hf hb hnamed hnamed' hadds hmark hnone hdir
  funext here
  rw [Nodes.put]
  rcases List.eq_nil_or_concat' here with rfl | ⟨here, k, rfl⟩
  · rw [nodes_nil, Function.update_of_ne (by simp), nodes_nil]
  rw [nodes_concat]
  cases hnew : (G.withFolder dir up f' r.body).dirAt U root here with
  | none =>
    have hwas : G.dirAt U root here = none := by
      rw [Option.eq_none_iff_forall_ne_some]
      intro c hc
      rw [(hdirs here c).2 (.inl hc)] at hnew
      cases hnew
    rw [Function.update_of_ne, nodes_concat, hwas]
    · rfl
    · intro heq
      rw [(List.append_singleton_inj.1 heq).1, hdir] at hwas
      cases hwas
  | some y =>
    rw [Option.bind_some]
    rcases (hdirs here y).1 hnew with hy | ⟨hbody, rfl⟩
    · obtain ⟨g, hg⟩ := h.exists_folder hy
      rw [withFolder_of_some dir up f' hb hg]
      by_cases heq : y = dir
      · subst heq
        cases hf.symm.trans hg
        rw [if_pos rfl, Option.bind_some, hnamed.look_of_adds hnamed' hadds hmark,
          h.dirAt_injective hy hdir]
        by_cases hk : k = r.key
        · rw [if_pos hk, hk, Function.update_self]
          rfl
        · rw [if_neg hk, Function.update_of_ne fun heq => hk (List.append_singleton_inj.1 heq).2,
            nodes_below hdir hf]
      · rw [if_neg heq, Option.bind_some, Function.update_of_ne, nodes_below hy hg]
        intro hplace
        rw [(List.append_singleton_inj.1 hplace).1, hdir] at hy
        exact heq (Option.some.inj hy).symm
    · have hempty : G.withFolder dir up f' r.body y = some ⟨some (y, up), []⟩ := if_pos hbody
      have hwas : G.dirAt U root (place ++ [r.key]) = none := by
        rw [dirAt_below hdir hf, hnone]
        rfl
      rw [hempty, Option.bind_some, Folder.look_eq_none (by simp), Function.update_of_ne (by simp),
        nodes_concat, hwas]
      rfl

/-! ### A record less -/

/-- Without the record of a file the directories are as they were, and there is a node less. -/
theorem nodes_replace (h : G.Held root) (hf' : G dir = some f') (hnamed' : f'.Named U)
    (hadds : f.Adds n r f') (hmark : U.aside r.key = false) (hnone : f.look U r.key = none)
    (hfile : r.body.isFolder = false) (hdir : G.dirAt U root place = some dir) :
    (G.replace dir f).dirAt U root = G.dirAt U root ∧
      (G.replace dir f).nodes U root = (G.nodes U root).put (place ++ [r.key]) none := by
  have hlook := (hnamed'.remove hadds).look_of_adds hnamed' hadds hmark
  have henter : ∀ y k, (G.replace dir f).enter U y k = G.enter U y k := by
    intro y k
    rw [enter, enter]
    by_cases hy : y = dir
    · rw [hy, replace_self, hf', Option.bind_some, Option.bind_some, hlook]
      by_cases hk : k = r.key
      · rw [if_pos hk, hk, hnone, Option.bind_some, hfile]
        rfl
      · rw [if_neg hk]
    · rw [replace_of_ne G f hy]
  have hdirs : ∀ place y, (G.replace dir f).dirAt U y place = G.dirAt U y place := by
    intro place
    induction place with
    | nil => exact fun y => rfl
    | cons k place ih =>
      intro y
      rw [dirAt, dirAt, henter]
      congr 1
      funext c
      exact ih c
  refine ⟨funext fun place => hdirs place root, ?_⟩
  funext here
  rw [Nodes.put]
  rcases List.eq_nil_or_concat' here with rfl | ⟨here, k, rfl⟩
  · rw [nodes_nil, Function.update_of_ne (by simp), nodes_nil]
  rw [nodes_concat, hdirs]
  by_cases heq : here = place ∧ k = r.key
  · obtain ⟨rfl, rfl⟩ := heq
    rw [Function.update_self, hdir, Option.bind_some, replace_self, Option.bind_some, hnone]
    rfl
  · rw [Function.update_of_ne fun hsame => heq (List.append_singleton_inj.1 hsame), nodes_concat]
    cases hy : G.dirAt U root here with
    | none => rfl
    | some y =>
      rw [Option.bind_some, Option.bind_some]
      by_cases hdir' : y = dir
      · subst hdir'
        have hk : k ≠ r.key := fun hk => heq ⟨h.dirAt_injective hy hdir, hk⟩
        rw [replace_self, hf', Option.bind_some, Option.bind_some, hlook, if_neg hk]
      · rw [replace_of_ne G f hdir']

end Catalog

end BootImage.Fat
