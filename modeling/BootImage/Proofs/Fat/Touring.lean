import BootImage.Proofs.Fat.Capacity
import BootImage.Proofs.Fat.Lookup
import BootImage.Proofs.Fat.Refinement
import BootImage.Proofs.Fat.Walking

/-!
# Walks through a volume that was formatted

On a disk that holds a catalog, a walk goes through the records of each folder in the order of their
slots, and behind a directory through what the directory holds. No directory is in two places, so
the walk comes to each record once, and it comes to all of them, as the name of a record finds the
record. What is found at the end of a path is then what the tree has there. How deep the directories
lie is the one thing that can stop such a walk.

## Main definitions

* `pathTo`, `FileTree.path`: the path of a place, by the names as they are spelled.
* `Catalog.Spelled`: names as they are spelled on the way to a directory.
* `Catalog.tour`: the records below a directory in the order of a walk.
* `Disk.Tours`: what a walk through a tree is to give.
* `Disk.Builds`: calls make a tree of a tree.

## Main results

* `Disk.Holds.ends_walkFrom_tour`: a walk gives the records of the tour.
* `Catalog.mem_tour`, `Catalog.exists_mem_tour`, `Catalog.pairwise_tour`: which records are in a
  tour, and in what order.
* `Disk.Holds.descends_iff`: ways down are directories of the tree.
* `Disk.Fresh.walk_after`: a walk after any calls.
-/

namespace BootImage.Fat

/-! ### Paths -/

/-- The path with a slash before each name. -/
def pathTo (names : List String) : String :=
  String.ofList (names.flatMap fun name => '/' :: name.toList)

/-- A path without the slashes at its end. -/
def stripped (path : String) : List Char :=
  (path.toList.reverse.dropWhile (· = '/')).reverse

theorem pathTo_concat (names : List String) (name : String) :
    (pathTo (names ++ [name])).toList = (pathTo names).toList ++ '/' :: name.toList := by
  simp [pathTo]

theorem childPath_eq {path : String} {names : List String}
    (h : stripped path = (pathTo names).toList) (name : String) :
    Disk.childPath path name = pathTo (names ++ [name]) := by
  rw [← String.toList_inj, pathTo_concat, ← h, Disk.childPath, String.toList_ofList]
  rfl

theorem stripped_pathTo {names : List String} {name : String} (h : IsPathName name) :
    stripped (pathTo (names ++ [name])) = (pathTo (names ++ [name])).toList := by
  obtain ⟨hne, -, hplain⟩ := h
  have hchars : name.toList ≠ [] := fun hnil => hne (String.toList_inj.1 hnil)
  obtain ⟨front, c, hc⟩ : ∃ front c, name.toList = front ++ [c] :=
    ⟨_, _, (List.dropLast_append_getLast hchars).symm⟩
  have hlast : c ≠ '/' := by
    rintro rfl
    exact absurd (hplain '/' (by simp [hc])) (by simp)
  rw [stripped, pathTo_concat, hc]
  simp [hlast]

theorem splitPath_pathTo {names : List String} (h : ∀ name ∈ names, IsPathName name) :
    splitPath (pathTo names) = names := by
  have hslash : ∀ s : List Char,
      splitPath (String.ofList ('/' :: s)) = splitPath (String.ofList s) := fun s => by
    rw [← List.nil_append ('/' :: s), splitPath_append]
    rfl
  induction names with
  | nil => decide
  | cons name names ih =>
    rw [List.forall_mem_cons] at h
    have ih := ih h.2
    have hone := splitPath_name h.1
    rw [pathTo, List.flatMap_cons, List.cons_append, hslash]
    cases names with
    | nil => simpa using hone
    | cons next names =>
      rw [pathTo, List.flatMap_cons, List.cons_append, hslash] at ih
      rw [List.flatMap_cons, List.cons_append, splitPath_append, String.ofList_toList, hone, ih]
      rfl

namespace FileTree

/-- The names on the way from the place `done` down, as they are spelled. -/
def namesFrom (t : FileTree) : (done place : List Key) → List String
  | _, [] => []
  | done, k :: place =>
    (t.nodes (done ++ [k])).elim "" (·.spelling) :: t.namesFrom (done ++ [k]) place

/-- The path of a place, with each name as it is spelled. -/
def path (t : FileTree) (place : List Key) : String :=
  pathTo (t.namesFrom [] place)

theorem namesFrom_append (t : FileTree) (done place place' : List Key) :
    t.namesFrom done (place ++ place') = t.namesFrom done place ++
      t.namesFrom (done ++ place) place' := by
  induction place generalizing done with
  | nil => simp [namesFrom]
  | cons k place ih => simp [namesFrom, ih]

end FileTree

/-! ### How deep directories lie -/

theorem Nodes.length_le_of_addFolders {nodes : Nodes} {names : List String} {here place : List Key}
    (h : (nodes.addFolders here names).IsFolder place) :
    nodes.IsFolder place ∨ place.length ≤ here.length + names.length := by
  induction names generalizing nodes here with
  | nil => exact .inl h
  | cons name names ih =>
    rw [addFolders] at h
    rw [List.length_cons]
    split at h
    · refine (ih h).imp_right fun hle => ?_
      rw [List.length_append, List.length_singleton] at hle
      omega
    · rcases ih h with (hnil | ⟨spelling, hnode⟩) | hle
      · exact .inl (.inl hnil)
      · by_cases heq : place = here ++ [key name]
        · refine .inr ?_
          rw [heq, List.length_append, List.length_singleton]
          omega
        · rw [put, Function.update_of_ne heq] at hnode
          exact .inl (.inr ⟨spelling, hnode⟩)
      · rw [List.length_append, List.length_singleton] at hle
        exact .inr (by omega)

/-- A directory that a call makes does not lie deeper than its path goes. -/
theorem FileTree.Step.length_le {t t' : FileTree} {call : Call} {result : Except Error Unit}
    (h : t.Step call result t') {place : List Key} (hplace : t'.IsFolder place) :
    t.IsFolder place ∨ place.length ≤ call.names.length := by
  rw [IsFolder] at hplace
  cases h with
  | made hnodes =>
    rw [hnodes] at hplace
    refine (Nodes.length_le_of_addFolders hplace).imp_right fun hle => hle.trans ?_
    rw [Call.names, List.length_nil, Nat.zero_add]
  | stopped hpath hnodes =>
    rw [hnodes] at hplace
    refine (Nodes.length_le_of_addFolders hplace).imp_right fun hle => hle.trans ?_
    rw [Call.names, hpath, List.length_append, List.length_nil]
    omega
  | @written path _ _ _ _ _ _ _ _ hnodes =>
    rw [hnodes] at hplace
    rcases hplace with hnil | ⟨spelling, hnode⟩
    · exact .inl (.inl hnil)
    · by_cases heq : place = keys path
      · rw [heq, Nodes.put, Function.update_self] at hnode
        cases hnode
      · rw [Nodes.put, Function.update_of_ne heq] at hnode
        exact .inl (.inr ⟨spelling, hnode⟩)
  | refused => exact .inl hplace
  | flushed => exact .inl hplace

/-! ### Names of records -/

section Names

variable {f : Folder} {x : Nat × Record}

theorem Folder.Named.isPathName (h : f.Named .plain) (hx : x ∈ f.records) :
    IsPathName x.2.spelling.shown := by
  obtain ⟨name, taken, hplain, hs⟩ := h.chosen x hx
  rw [shown_eq hs hplain.1]
  exact isPathName_of_isValidName (spellingOf_cases hs).1

theorem Folder.Named.hasMark_eq (h : f.Named .plain) (hx : x ∈ f.records) :
    hasMark x.2.key = false := by
  obtain ⟨name, taken, hplain, hs⟩ := h.chosen x hx
  rw [Record.key, shown_eq hs hplain.1]
  exact hplain.hasMark_eq

end Names

/-! ### The records below a directory -/

namespace Catalog

variable {G : Catalog} {root c dir n : Nat} {f : Folder} {r : Record} {names : List String}

/-- The names by which a directory is found from the root, as they are spelled. -/
inductive Spelled (G : Catalog) (root : Nat) : (names : List String) → (c : Nat) → Prop
  | root : Spelled G root [] root
  | child {names : List String} {dir n : Nat} {f : Folder} {r : Record}
      (h : Spelled G root names dir) (hf : G dir = some f) (hr : (n, r) ∈ f.records)
      (hfolder : r.body.isFolder = true) :
      Spelled G root (names ++ [r.spelling.shown]) r.body.first

/-- The records below a directory in the order of a walk, each with the names that lead to it. -/
def tour (G : Catalog) : (depth : Nat) → (names : List String) → (c : Nat) →
    List (List String × Nat × Record)
  | 0, _, _ => []
  | depth + 1, names, c => ((G c).elim [] (·.records)).flatMap fun x =>
    (names ++ [x.2.spelling.shown], x) ::
      if x.2.body.isFolder then G.tour depth (names ++ [x.2.spelling.shown]) x.2.body.first else []

/-- What a tour has for one record. -/
def part (G : Catalog) (depth : Nat) (names : List String) (x : Nat × Record) :
    List (List String × Nat × Record) :=
  (names ++ [x.2.spelling.shown], x) ::
    if x.2.body.isFolder then G.tour depth (names ++ [x.2.spelling.shown]) x.2.body.first else []

theorem tour_succ (hf : G c = some f) (depth : Nat) (names : List String) :
    G.tour (depth + 1) names c = f.records.flatMap (G.part depth names) := by
  rw [tour, hf]
  rfl

theorem enter_eq (hnamed : f.Named .plain) (hf : G dir = some f) {x : Nat × Record}
    (hx : x ∈ f.records) (hfolder : x.2.body.isFolder = true) :
    G.enter .plain dir x.2.key = some x.2.body.first := by
  rw [enter, hf, Option.bind_some, hnamed.look_eq hx (hnamed.hasMark_eq hx), Option.bind_some,
    if_pos hfolder]

namespace Spelled

theorem isPathName (h : G.Spelled root names c) (hnamed : G.Named .plain) :
    ∀ name ∈ names, IsPathName name := by
  induction h with
  | root => simp
  | child _ hf hr _ ih =>
    intro name hname
    rcases List.mem_append.1 hname with hname | hname
    · exact ih name hname
    · rw [List.mem_singleton.1 hname]
      exact (hnamed _ _ hf).isPathName hr

theorem hasMark_eq (h : G.Spelled root names c) (hnamed : G.Named .plain) :
    ∀ name ∈ names, hasMark (key name) = false := by
  induction h with
  | root => simp
  | child _ hf hr _ ih =>
    intro name hname
    rcases List.mem_append.1 hname with hname | hname
    · exact ih name hname
    · have hmark := (hnamed _ _ hf).hasMark_eq hr
      rw [List.mem_singleton.1 hname, ← Record.key]
      exact hmark

theorem dirAt_eq (h : G.Spelled root names c) (hnamed : G.Named .plain) :
    G.dirAt .plain root (names.map key) = some c := by
  induction h with
  | root => rfl
  | @child names dir n f r _ hf hr hfolder ih =>
    have henter := enter_eq (hnamed _ _ hf) hf hr hfolder
    rw [Record.key] at henter
    rw [List.map_append, List.map_singleton, dirAt_concat, ih, Option.bind_some, henter]

/-- The node of a record that is found by names as they are spelled. -/
theorem nodes_eq (h : G.Spelled root names dir) (hnamed : G.Named .plain) (hf : G dir = some f)
    {x : Nat × Record} (hx : x ∈ f.records) :
    G.nodes .plain root ((names ++ [x.2.spelling.shown]).map key) = some x.2.node := by
  rw [List.map_append, List.map_singleton, nodes_below (h.dirAt_eq hnamed) hf, ← Record.key,
    (hnamed _ _ hf).look_eq hx ((hnamed _ _ hf).hasMark_eq hx)]
  rfl

/-- Names as they are spelled are those that the tree has. -/
theorem namesFrom_eq (h : G.Spelled root names c) (hnamed : G.Named .plain) {t : FileTree}
    (hnodes : t.nodes = G.nodes .plain root) : t.namesFrom [] (names.map key) = names := by
  induction h with
  | root => rfl
  | @child names dir n f r h hf hr _ ih =>
    have hnode := h.nodes_eq hnamed hf hr
    rw [List.map_append, List.map_singleton] at hnode ⊢
    rw [FileTree.namesFrom_append, ih, FileTree.namesFrom, List.nil_append, hnodes, hnode]
    rfl

end Spelled

/-! ### Which records are in a tour -/

/-- A record in a tour is that of a folder to which names lead as they are spelled. -/
theorem mem_tour {depth : Nat} {w : List String × Nat × Record} (h : G.Spelled root names c)
    (hw : w ∈ G.tour depth names c) : ∃ front dir f, G.Spelled root front dir ∧ G dir = some f ∧
      w.2 ∈ f.records ∧ w.1 = front ++ [w.2.2.spelling.shown] := by
  induction depth generalizing names c with
  | zero => cases hw
  | succ depth ih =>
    cases hf : G c with
    | none =>
      rw [tour, hf] at hw
      cases hw
    | some f =>
      rw [tour_succ hf, List.mem_flatMap] at hw
      obtain ⟨x, hx, hw⟩ := hw
      rcases List.mem_cons.1 hw with rfl | hw
      · exact ⟨names, c, f, h, hf, hx, rfl⟩
      · split at hw
        · rename_i hfolder
          exact ih (.child h hf hx hfolder) hw
        · cases hw

/-- Every record below a directory is in the tour, if it is not deeper than the tour goes. -/
theorem exists_mem_tour {depth : Nat} {rest : List Key} {k : Key} {x : Nat × Record}
    (hdir : G.dirAt .plain c rest = some dir) (hf : G dir = some f)
    (hlook : f.look .plain k = some x) (hlen : rest.length < depth) (names : List String) :
    ∃ w ∈ G.tour depth names c, w.1.map key = names.map key ++ rest ++ [k] ∧ w.2 = x := by
  induction depth generalizing rest names c with
  | zero => exact absurd hlen (Nat.not_lt_zero _)
  | succ depth ih =>
    cases rest with
    | nil =>
      cases hdir
      obtain ⟨hx, hkey, -⟩ := Folder.key_of_look hlook
      refine ⟨(names ++ [x.2.spelling.shown], x), ?_, ?_, rfl⟩
      · rw [tour_succ hf, List.mem_flatMap]
        exact ⟨x, hx, List.mem_cons_self⟩
      · rw [List.append_nil, List.map_append, ← hkey]
        rfl
    | cons k' rest =>
      obtain ⟨c', henter, hdir⟩ := Option.bind_eq_some_iff.1 hdir
      obtain ⟨g, m, s, hg, hlook'⟩ := enter_eq_some henter
      obtain ⟨hm, hkey, -⟩ := Folder.key_of_look hlook'
      obtain ⟨w, hw, hplace, hrecord⟩ := ih hdir (Nat.lt_of_succ_lt_succ hlen) (names ++ [s.shown])
      refine ⟨w, ?_, ?_, hrecord⟩
      · rw [tour_succ hg, List.mem_flatMap]
        exact ⟨_, hm, List.mem_cons_of_mem _ hw⟩
      · rw [hplace, List.map_append, ← hkey, List.append_assoc, List.append_assoc,
          List.append_assoc]
        rfl

/-! ### In what order they are there -/

/-- What is in a tour is below the directory where it starts. -/
theorem exists_of_mem_tour {depth : Nat} {w : List String × Nat × Record}
    (hw : w ∈ G.tour depth names c) : ∃ k rest, w.1.map key = names.map key ++ k :: rest := by
  induction depth generalizing names c with
  | zero => cases hw
  | succ depth ih =>
    cases hf : G c with
    | none =>
      rw [tour, hf] at hw
      cases hw
    | some f =>
      rw [tour_succ hf, List.mem_flatMap] at hw
      obtain ⟨x, -, hw⟩ := hw
      rcases List.mem_cons.1 hw with rfl | hw
      · exact ⟨x.2.key, [], by rw [List.map_append]; rfl⟩
      · split at hw
        · obtain ⟨k, rest, hplace⟩ := ih hw
          exact ⟨x.2.key, k :: rest, by rw [hplace, List.map_append, List.append_assoc]; rfl⟩
        · cases hw

/-- What is in the part of a record is the record itself or below its place. -/
theorem mem_part_cases {depth : Nat} {x : Nat × Record} {w : List String × Nat × Record}
    (hw : w ∈ G.part depth names x) :
    w.2 = x ∧ w.1.map key = names.map key ++ [x.2.key] ∨
      ∃ k rest, w.1.map key = names.map key ++ x.2.key :: k :: rest := by
  rcases List.mem_cons.1 hw with rfl | hw
  · exact .inl ⟨rfl, by rw [List.map_append]; rfl⟩
  · split at hw
    · obtain ⟨k, rest, hplace⟩ := exists_of_mem_tour hw
      exact .inr ⟨k, rest, by rw [hplace, List.map_append, List.append_assoc]; rfl⟩
    · cases hw

/-- A record comes before another: it is not below it, and of two in one folder it has the first
slot. -/
def Precedes (w w' : List String × Nat × Record) : Prop :=
  ¬ w'.1.map key <+: w.1.map key ∧
    ((w.1.map key).dropLast = (w'.1.map key).dropLast → w.2.1 < w'.2.1)

/-- Of what is below two records of a folder, that which is below the one with the first slot comes
first. -/
theorem precedes_of_parts {depth : Nat} {x y : Nat × Record} (hlt : x.1 < y.1)
    (hkey : x.2.key ≠ y.2.key) {w w' : List String × Nat × Record}
    (hw : w ∈ G.part depth names x) (hw' : w' ∈ G.part depth names y) : Precedes w w' := by
  rcases mem_part_cases hw with ⟨hx, hplace⟩ | ⟨k, rest, hplace⟩ <;>
    rcases mem_part_cases hw' with ⟨hy, hplace'⟩ | ⟨k', rest', hplace'⟩ <;>
    rw [Precedes, hplace, hplace', List.prefix_append_right_inj, List.cons_prefix_cons] <;>
    refine ⟨fun hprefix => hkey hprefix.1.symm, fun hfolder => ?_⟩
  · rwa [hx, hy]
  · rw [List.dropLast_concat, List.dropLast_append_cons] at hfolder
    simpa using congrArg List.length hfolder
  · rw [List.dropLast_concat, List.dropLast_append_cons] at hfolder
    simpa using congrArg List.length hfolder
  · rw [List.dropLast_append_cons, List.dropLast_append_cons, List.append_right_inj] at hfolder
    exact absurd (List.cons.inj hfolder).1 hkey

theorem pairwise_tour (hG : ∀ c f, G c = some f →
      f.records.Pairwise fun x y => x.1 < y.1 ∧ x.2.key ≠ y.2.key) (depth : Nat)
    (names : List String) (c : Nat) : (G.tour depth names c).Pairwise Precedes := by
  induction depth generalizing names c with
  | zero => exact .nil
  | succ depth ih =>
    cases hf : G c with
    | none =>
      rw [tour, hf]
      exact .nil
    | some f =>
      rw [tour_succ hf, List.pairwise_flatMap]
      refine ⟨fun x _ => ?_, (hG c f hf).imp fun hxy w hw w' hw' =>
        precedes_of_parts hxy.1 hxy.2 hw hw'⟩
      refine List.pairwise_cons.2 ⟨fun w hw => ?_, ?_⟩
      · split at hw
        · obtain ⟨k, rest, hplace⟩ := exists_of_mem_tour hw
          refine ⟨fun hprefix => ?_, fun hfolder => ?_⟩
          · have hle := hprefix.length_le
            rw [hplace] at hle
            simp at hle
          · rw [hplace, List.map_append, List.map_singleton, List.dropLast_concat,
              List.dropLast_append_cons] at hfolder
            simpa using congrArg List.length hfolder
        · cases hw
      · split
        · exact ih _ _
        · exact .nil

end Catalog

/-! ### A walk through a catalog -/

namespace Disk

section Walk

variable {d : Disk} {G : Catalog} {K : Owner → List Nat} {loose : List Nat} {c n : Nat}
  {f : Folder}

/-- The name of a directory leads to it. -/
theorem Holds.resolveFrom_shown (h : d.Holds G K loose) (hopen : d.volume.closed = false)
    (hnamed : G.Named .plain) (hf : G c = some f) {x : Nat × Record} (hx : x ∈ f.records)
    (hfolder : x.2.body.isFolder = true) (done : List String) :
    d.resolveFrom done c (splitPath x.2.spelling.shown) = .ok x.2.body.first ∧
      ∃ g, G x.2.body.first = some g := by
  obtain ⟨htarget, hg⟩ := h.target_eq hf hx hfolder
  have hfind := (hnamed c f hf).find_shown hx
    (Usage.plain.not_contested ((hnamed c f hf).hasMark_eq hx))
  refine ⟨?_, hg⟩
  rw [splitPath_name ((hnamed c f hf).isPathName hx), resolveFrom, h.lookup_eq hopen hf, hfind]
  simp only [Bind.bind, Except.bind, Option.map_some, Record.isDirectory_entry, hfolder, if_true,
    htarget]
  rfl

/-- The walk goes from a directory to those that the catalog has in it. -/
theorem Holds.leads_iff (h : d.Holds G K loose) (hopen : d.volume.closed = false)
    (hnamed : G.Named .plain) (hf : G c = some f) {c' : Nat} :
    d.Leads c c' ↔ ∃ k, G.enter .plain c k = some c' := by
  constructor
  · rintro ⟨es, hes, e, he, hkind, hc'⟩
    rw [h.entries_eq hopen hf] at hes
    obtain rfl := Except.ok.inj hes
    obtain ⟨x, hx, rfl⟩ := List.mem_map.1 he
    rw [Record.isDirectory_entry] at hkind
    obtain ⟨hresolve, -⟩ := h.resolveFrom_shown hopen hnamed hf hx hkind []
    refine ⟨x.2.key, ?_⟩
    rw [Catalog.enter_eq (hnamed c f hf) hf hx hkind]
    exact congrArg some (Except.ok.inj (hresolve.symm.trans hc'))
  · rintro ⟨k, henter⟩
    obtain ⟨f', m, s, hf', hlook⟩ := Catalog.enter_eq_some henter
    cases hf.symm.trans hf'
    obtain ⟨hx, -, -⟩ := Folder.key_of_look hlook
    obtain ⟨hresolve, -⟩ := h.resolveFrom_shown hopen hnamed hf hx rfl []
    exact ⟨_, h.entries_eq hopen hf, _, List.mem_map.2 ⟨_, hx, rfl⟩,
      Record.isDirectory_entry _ _, hresolve⟩

theorem Holds.exists_folder_of_leads (h : d.Holds G K loose) (hopen : d.volume.closed = false)
    (hnamed : G.Named .plain) (hf : G c = some f) {c' : Nat} (hleads : d.Leads c c') :
    ∃ g, G c' = some g := by
  obtain ⟨k, henter⟩ := (h.leads_iff hopen hnamed hf).1 hleads
  obtain ⟨f', m, s, hf', hlook⟩ := Catalog.enter_eq_some henter
  exact (h.target_eq hf' (Folder.key_of_look hlook).1 rfl).2

/-- The walk can go on through every directory of the catalog. -/
theorem Holds.passable (h : d.Holds G K loose) (hopen : d.volume.closed = false)
    (hnamed : G.Named .plain) (hf : G c = some f) {c' : Nat}
    (hway : Relation.ReflTransGen d.Leads c c') : d.Passable c' := by
  have hfolder : ∃ g, G c' = some g := by
    induction hway with
    | refl => exact ⟨f, hf⟩
    | tail _ hleads ih =>
      obtain ⟨g, hg⟩ := ih
      exact h.exists_folder_of_leads hopen hnamed hg hleads
  obtain ⟨g, hg⟩ := hfolder
  refine ⟨_, h.entries_eq hopen hg, fun e he hkind => ?_⟩
  obtain ⟨x, hx, rfl⟩ := List.mem_map.1 he
  rw [Record.isDirectory_entry] at hkind
  exact ⟨_, (h.resolveFrom_shown hopen hnamed hg hx hkind []).1⟩

/-- Ways down are directories of the tree. -/
theorem Holds.descends_iff (h : d.Holds G K loose) (hopen : d.volume.closed = false)
    (hnamed : G.Named .plain) (hf : G c = some f) :
    d.Descends n c ↔ ∃ place c', place.length = n ∧ G.dirAt .plain c place = some c' := by
  induction n generalizing c f with
  | zero => exact ⟨fun _ => ⟨[], c, rfl, rfl⟩, fun _ => .here c⟩
  | succ n ih =>
    constructor
    · rintro (_ | ⟨hleads, hdown⟩)
      obtain ⟨g, hg⟩ := h.exists_folder_of_leads hopen hnamed hf hleads
      obtain ⟨k, henter⟩ := (h.leads_iff hopen hnamed hf).1 hleads
      obtain ⟨place, c', hlen, hdir⟩ := (ih hg).1 hdown
      refine ⟨k :: place, c', congrArg Nat.succ hlen, ?_⟩
      rw [Catalog.dirAt, henter, Option.bind_some, hdir]
    · rintro ⟨place, c', hlen, hdir⟩
      cases place with
      | nil => cases hlen
      | cons k place =>
        obtain ⟨c'', henter, hdir⟩ := Option.bind_eq_some_iff.1 hdir
        have hleads := (h.leads_iff hopen hnamed hf).2 ⟨k, henter⟩
        obtain ⟨g, hg⟩ := h.exists_folder_of_leads hopen hnamed hf hleads
        exact .down hleads ((ih hg).2 ⟨place, c', Nat.succ.inj hlen, hdir⟩)

/-- What a walk shows of a record. -/
def shown (w : List String × Nat × Record) : String × DirEntry :=
  (pathTo w.1, w.2.2.entry w.2.1)

/-- What a walk gives are the records of the tour. The induction is on how far down it may go. -/
theorem Holds.ends_walkFrom_tour (h : d.Holds G K loose) (hopen : d.volume.closed = false)
    (hnamed : G.Named .plain) (hf : G c = some f) {path : String} {names : List String}
    (hpath : stripped path = (pathTo names).toList) (done : List String) :
    Ends (fun _ : Error => True) (fun ws => ws = (G.tour n names c).map shown)
      (d.walkFrom n path done c) := by
  induction n generalizing path names done c f with
  | zero => trivial
  | succ n ih =>
    have hentry : ∀ x ∈ f.records, Ends (fun _ : Error => True)
        (fun below => (G.part n names x).map shown = below)
        (d.walkEntry n path done c (x.2.entry x.1)) := by
      intro x hx
      have hchild : childPath path (x.2.entry x.1).name = pathTo (names ++ [x.2.spelling.shown]) :=
        childPath_eq hpath _
      rw [walkEntry, hchild, Record.isDirectory_entry]
      by_cases hfolder : x.2.body.isFolder = true
      · obtain ⟨hresolve, g, hg⟩ := h.resolveFrom_shown hopen hnamed hf hx hfolder done
        have hstripped : stripped (pathTo (names ++ [x.2.spelling.shown])) =
            (pathTo (names ++ [x.2.spelling.shown])).toList :=
          stripped_pathTo ((hnamed c f hf).isPathName hx)
        have hinside := ih hg hstripped (done ++ splitPath x.2.spelling.shown)
        have hname : (x.2.entry x.1).name = x.2.spelling.shown := rfl
        rw [if_pos hfolder, hname, hresolve]
        refine hinside.bind fun ws hws => ?_
        rw [Catalog.part, if_pos hfolder, List.map_cons, ← hws]
        rfl
      · rw [if_neg hfolder, Catalog.part, if_neg hfolder]
        rfl
    have hall := Ends.mapM hentry
    rw [walkFrom_succ, h.entries_eq hopen hf, Folder.entries, Catalog.tour_succ hf]
    have hmap : ((Except.ok (f.records.map fun x => x.2.entry x.1) : Except Error _) >>= fun es =>
        es.mapM (d.walkEntry n path done c)) =
          f.records.mapM fun x => d.walkEntry n path done c (x.2.entry x.1) :=
      List.mapM_map
    rw [hmap]
    refine hall.bind fun parts hparts => ?_
    have hparts : parts = f.records.map fun x => (G.part n names x).map shown := by
      rw [← List.forall₂_map_left_iff (f := fun x => (G.part n names x).map shown) (R := Eq),
        List.forall₂_eq_eq_eq] at hparts
      exact hparts.symm
    show parts.flatten = _
    rw [hparts, List.map_flatMap, List.flatMap_def]

/-- No two records of a folder have one slot or one name. -/
theorem Holds.pairwise_records (h : d.Holds G K loose) (hnamed : G.Named .plain)
    (hf : G c = some f) : f.records.Pairwise fun x y => x.1 < y.1 ∧ x.2.key ≠ y.2.key := by
  obtain ⟨o, -, -, hstands⟩ := h.exists_owner hf
  obtain ⟨rest, -, harranged⟩ := hstands.arranged
  refine harranged.pairwise.imp_of_mem fun {x y} hx hy hlt => ⟨hlt, fun hkey => ?_⟩
  have heq := (hnamed c f hf).unique x hx y hy
    (Usage.plain.not_contested ((hnamed c f hf).hasMark_eq hx)) hkey
  exact absurd (congrArg Prod.fst heq) hlt.ne

/-- What is shown of a record in a tour from the root: the path of its place leads to its node, and
what is found there is its entry. -/
theorem Holds.of_mem_tour (h : d.Holds G K loose) (hopen : d.volume.closed = false)
    (hnamed : G.Named .plain) {t : FileTree}
    (hnodes : t.nodes = G.nodes .plain d.volume.geometry.rootCluster)
    {w : List String × Nat × Record} (hw : w ∈ G.tour n [] d.volume.geometry.rootCluster) :
    keys (shown w).1 = w.1.map key ∧ (shown w).1 = t.path (w.1.map key) ∧
      t.nodes (w.1.map key) = some w.2.2.node ∧ d.stat (shown w).1 = .ok (some (shown w).2) := by
  obtain ⟨front, dir, f, hspelled, hf, hx, hnames⟩ := Catalog.mem_tour .root hw
  have hnode := hspelled.nodes_eq hnamed hf hx
  rw [← hnames, ← hnodes] at hnode
  have hpath : ∀ name ∈ w.1, IsPathName name := by
    rw [hnames]
    intro name hname
    rcases List.mem_append.1 hname with hname | hname
    · exact hspelled.isPathName hnamed name hname
    · rw [List.mem_singleton.1 hname]
      exact (hnamed dir f hf).isPathName hx
  have hsplit : splitPath (shown w).1 = w.1 := splitPath_pathTo hpath
  refine ⟨by rw [keys, hsplit], ?_, hnode, ?_⟩
  · have hfront := hspelled.namesFrom_eq hnamed hnodes
    rw [hnames, List.map_append] at hnode
    rw [FileTree.path, shown, hnames, List.map_append, FileTree.namesFrom_append, hfront]
    simp only [List.map_cons, List.map_nil, FileTree.namesFrom, List.nil_append] at hnode ⊢
    rw [hnode]
    rfl
  · have hresolve : d.resolve front = .ok dir := by
      refine h.resolve_eq hopen ?_
      rw [hnamed.descend_eq (hspelled.hasMark_eq hnamed), hspelled.dirAt_eq hnamed]
    have hfind := (hnamed dir f hf).find_shown hx
      (Usage.plain.not_contested ((hnamed dir f hf).hasMark_eq hx))
    rw [stat, hsplit, hnames]
    simp only [List.getLast?_concat, List.dropLast_concat, hresolve, h.lookup_eq hopen hf, hfind,
      Option.map_some]
    rfl

end Walk

/-! ### A walk through a tree -/

/-- What a walk through a tree is to give. -/
structure Tours (d : Disk) (t : FileTree) (ws : List (String × DirEntry)) : Prop where
  /-- Each directory and each file is there. -/
  complete : ∀ place, (t.nodes place).isSome → ∃ w ∈ ws, keys w.1 = place
  /-- Nothing is there twice. -/
  once : (ws.map fun w => keys w.1).Nodup
  /-- What is there is a directory or a file of the tree, and looks like it. -/
  node : ∀ w ∈ ws, ∃ x, t.nodes (keys w.1) = some x ∧ w.2.outline = x.outline
  /-- Its path is the full one, with each name as it is spelled. -/
  path : ∀ w ∈ ws, w.1 = t.path (keys w.1)
  /-- Its entry is the one that is found at the path. -/
  stat : ∀ w ∈ ws, d.stat w.1 = .ok (some w.2)
  /-- A directory comes before what it holds. -/
  down : ws.Pairwise fun w w' => ¬ keys w'.1 <+: keys w.1
  /-- What is in one directory comes in the order of the slots. -/
  slots : ws.Pairwise fun w w' => (keys w.1).dropLast = (keys w'.1).dropLast →
    w.2.slots.headD 0 < w'.2.slots.headD 0

variable {d : Disk} {t : FileTree} {G : Catalog} {K : Owner → List Nat} {loose : List Nat} {n : Nat}

/-- The tour from the root, if it goes deep enough, has all of the tree. -/
theorem Holds.tours (h : d.Holds G K loose) (hopen : d.volume.closed = false)
    (hnamed : G.Named .plain) (hnodes : t.nodes = G.nodes .plain d.volume.geometry.rootCluster)
    (hdeep : ∀ place c, G.dirAt .plain d.volume.geometry.rootCluster place = some c →
      place.length < n) :
    d.Tours t ((G.tour n [] d.volume.geometry.rootCluster).map shown) := by
  have hfound : ∀ {w}, w ∈ G.tour n [] d.volume.geometry.rootCluster → _ :=
    fun hw => h.of_mem_tour hopen hnamed hnodes hw
  have horder := Catalog.pairwise_tour (G := G) (fun c f hf => h.pairwise_records hnamed hf) n []
    d.volume.geometry.rootCluster
  have hdown : ((G.tour n [] d.volume.geometry.rootCluster).map shown).Pairwise
      fun w w' => ¬ keys w'.1 <+: keys w.1 := by
    refine List.pairwise_map.2 (horder.imp_of_mem fun hw hw' hbefore => ?_)
    rw [(hfound hw).1, (hfound hw').1]
    exact hbefore.1
  refine ⟨fun place hplace => ?_, List.pairwise_map.2 (hdown.imp fun hnot heq => ?_), ?_, ?_, ?_,
    hdown, ?_⟩
  · rcases List.eq_nil_or_concat' place with rfl | ⟨place, k, rfl⟩
    · rw [t.root] at hplace
      cases hplace
    · obtain ⟨x, hx⟩ := Option.isSome_iff_exists.1 hplace
      rw [hnodes, Catalog.nodes_concat] at hx
      obtain ⟨dir, hdir, hx⟩ := Option.bind_eq_some_iff.1 hx
      obtain ⟨r, hr, -⟩ := Option.map_eq_some_iff.1 hx
      obtain ⟨f, hf, hlook⟩ := Option.bind_eq_some_iff.1 hr
      obtain ⟨w, hw, hkeys, -⟩ := Catalog.exists_mem_tour hdir hf hlook (hdeep place dir hdir) []
      exact ⟨_, List.mem_map_of_mem hw, (hfound hw).1.trans hkeys⟩
  · exact hnot (heq ▸ List.prefix_refl _)
  · rw [List.forall_mem_map]
    intro w hw
    rw [(hfound hw).1]
    exact ⟨_, (hfound hw).2.2.1, Record.outline_entry _ _⟩
  · rw [List.forall_mem_map]
    intro w hw
    rw [(hfound hw).1]
    exact (hfound hw).2.1
  · rw [List.forall_mem_map]
    exact fun w hw => (hfound hw).2.2.2
  · refine List.pairwise_map.2 (horder.imp_of_mem fun hw hw' hbefore => ?_)
    rw [(hfound hw).1, (hfound hw').1, shown, shown, headD_slots_entry, headD_slots_entry]
    exact hbefore.2

/-- A walk gives all of a tree, if no directory lies deeper than a walk can go; otherwise it
fails. -/
theorem Keeps.walk_cases (h : d.Keeps t) :
    ((∀ place, t.IsFolder place → place.length < maxDepth) →
      ∃ ws, d.walk "/" = .ok ws ∧ d.Tours t ws) ∧
    ((∃ place, t.IsFolder place ∧ maxDepth ≤ place.length) → d.walk "/" = .error .tooDeep) := by
  obtain ⟨⟨hopen, -⟩, G, K, hholds, hnamed, hnodes⟩ := h
  obtain ⟨f, hf, -⟩ := hholds.root
  have hfolder : ∀ {place}, t.IsFolder place ↔
      ∃ c, G.dirAt .plain d.volume.geometry.rootCluster place = some c := by
    intro place
    rw [FileTree.IsFolder, hnodes, Catalog.isFolder_nodes_iff]
  have hpassable : ∀ c, Relation.ReflTransGen d.Leads d.volume.geometry.rootCluster c →
      d.Passable c := fun c hway => hholds.passable hopen hnamed hf hway
  rw [walk_root]
  constructor
  · intro hshallow
    have hdown : ¬ d.Descends maxDepth d.volume.geometry.rootCluster := by
      rw [hholds.descends_iff hopen hnamed hf]
      rintro ⟨place, c, hlen, hdir⟩
      exact absurd hlen (hshallow place (hfolder.2 ⟨c, hdir⟩)).ne
    obtain ⟨ws, hws⟩ := (exists_walkFrom_iff hopen "/" []).2 ⟨hpassable, hdown⟩
    have hroot : stripped "/" = (pathTo []).toList := rfl
    have htour := hholds.ends_walkFrom_tour (n := maxDepth) hopen hnamed hf hroot []
    rw [hws] at htour
    have htour : ws = (G.tour maxDepth [] d.volume.geometry.rootCluster).map shown := htour
    refine ⟨ws, hws, htour ▸ hholds.tours hopen hnamed hnodes fun place c hdir => ?_⟩
    exact hshallow place (hfolder.2 ⟨c, hdir⟩)
  · rintro ⟨place, hplace, hlen⟩
    obtain ⟨c, hdir⟩ := hfolder.1 hplace
    have hdown := (hholds.descends_iff hopen hnamed hf).2 ⟨place, c, rfl, hdir⟩
    exact walkFrom_tooDeep hopen "/" [] hpassable (hdown.mono hlen)

/-! ### A walk after any calls -/

/-- Calls that are made of a disk, one after the other, make a tree of a tree: each of them does to
the tree what it should. -/
inductive Builds : Disk → FileTree → List Call → FileTree → Prop
  | done {d : Disk} {t : FileTree} : Builds d t [] t
  | call {d : Disk} {t t' t'' : FileTree} {call : Call} {calls : List Call}
      (hstep : t.Step call (call.on d).1 t') (rest : Builds (call.on d).2 t' calls t'') :
      Builds d t (call :: calls) t''

theorem Keeps.builds (h : d.Keeps t) (calls : List Call)
    (hsupplied : ∀ call ∈ calls, call.Supplied) (hplain : ∀ call ∈ calls, call.Plain) :
    ∃ t', d.Builds t calls t' ∧ (d.after calls).Keeps t' := by
  induction calls generalizing d t with
  | nil => exact ⟨t, .done, h⟩
  | cons call calls ih =>
    rw [List.forall_mem_cons] at hsupplied hplain
    obtain ⟨t', hstep, hkeeps⟩ := h.step call hsupplied.1 hplain.1
    obtain ⟨t'', hbuilds, hkeeps'⟩ := ih hkeeps hsupplied.2 hplain.2
    exact ⟨t'', .call hstep hbuilds, hkeeps'⟩

/-- No directory of a tree lies deeper than the calls go that made it. -/
theorem Builds.length_le {calls : List Call} {t' : FileTree} (h : d.Builds t calls t')
    {place : List Key} (hplace : t'.IsFolder place) :
    t.IsFolder place ∨ ∃ call ∈ calls, place.length ≤ call.names.length := by
  induction h with
  | done => exact .inl hplace
  | call hstep _ ih =>
    rcases ih hplace with hplace | ⟨call, hcall, hle⟩
    · exact (hstep.length_le hplace).imp_right fun hle => ⟨_, List.mem_cons_self, hle⟩
    · exact .inr ⟨call, List.mem_cons_of_mem _ hcall, hle⟩

/-- In every state of a new volume that calls lead to, a walk from the root gives the tree that the
calls made, as long as each name in their paths is of ASCII and has no tilde, and each source has
the bytes that are asked of it. The condition is that no directory of the tree lies deeper than a
walk can go; if one does, the walk fails. -/
theorem Fresh.walk_after (h : d.Fresh) (calls : List Call)
    (hsupplied : ∀ call ∈ calls, call.Supplied) (hplain : ∀ call ∈ calls, call.Plain) :
    ∃ t, d.Builds .empty calls t ∧
      ((∀ place, t.IsFolder place → place.length < maxDepth) →
        ∃ ws, (d.after calls).walk "/" = .ok ws ∧ (d.after calls).Tours t ws) ∧
      ((∃ place, t.IsFolder place ∧ maxDepth ≤ place.length) →
        (d.after calls).walk "/" = .error .tooDeep) := by
  obtain ⟨t, hbuilds, hkeeps⟩ := h.keeps.builds calls hsupplied hplain
  exact ⟨t, hbuilds, hkeeps.walk_cases⟩

/-- A directory in a directory, and a file that is replaced under another case of its name. -/
theorem exists_walk_after_files : ∃ d : Disk, d.Fresh ∧ ∃ t, d.Builds .empty
      [.makeDirectory "usr/bin", .writeFile "/usr/Read me.txt" (Content.ofBytes [1, 2]) 2,
        .writeFile "/USR/READ ME.TXT" (Content.ofBytes [3]) 1] t ∧
    ∃ ws, (d.after [.makeDirectory "usr/bin",
      .writeFile "/usr/Read me.txt" (Content.ofBytes [1, 2]) 2,
      .writeFile "/USR/READ ME.TXT" (Content.ofBytes [3]) 1]).walk "/" = .ok ws ∧
    (d.after [.makeDirectory "usr/bin", .writeFile "/usr/Read me.txt" (Content.ofBytes [1, 2]) 2,
      .writeFile "/USR/READ ME.TXT" (Content.ofBytes [3]) 1]).Tours t ws := by
  obtain ⟨d, hfresh⟩ := exists_fresh
  obtain ⟨t, hbuilds, hwalk, -⟩ := hfresh.walk_after [.makeDirectory "usr/bin",
    .writeFile "/usr/Read me.txt" (Content.ofBytes [1, 2]) 2,
    .writeFile "/USR/READ ME.TXT" (Content.ofBytes [3]) 1]
    (by simp [Call.Supplied]) (by decide)
  refine ⟨d, hfresh, t, hbuilds, hwalk fun place hplace => ?_⟩
  rcases hbuilds.length_le hplace with (rfl | ⟨_, ⟨⟩⟩) | ⟨call, hcall, hle⟩
  · decide
  · have hshort : ∀ call ∈ [Call.makeDirectory "usr/bin",
        .writeFile "/usr/Read me.txt" (Content.ofBytes [1, 2]) 2,
        .writeFile "/USR/READ ME.TXT" (Content.ofBytes [3]) 1], call.names.length < maxDepth := by
      simp only [List.forall_mem_cons, Call.names]
      decide
    exact hle.trans_lt (hshort call hcall)

end Disk

end BootImage.Fat
