import BootImage.Proofs.Fat.Changes

/-!
# A volume is a file tree

As long as the names in paths are of ASCII and have no tilde, a volume that was formatted does what
a tree without clusters does: each call changes the tree as `FileTree.Step` says, and whatever is
asked of the volume between two calls is answered by the tree.

## Main definitions

* `Disk.Shows`: what is read of a disk is what a tree has.
* `Disk.Follows`: a disk and a tree go through calls together.

## Main results

* `Disk.Keeps.shows`: what is read of a disk that holds the catalog of a tree.
* `Disk.Keeps.step`: one call.
* `Disk.Fresh.follows_empty`: any calls.
-/

namespace BootImage.Fat

/-- What is shown of an entry: its name and the size, if it is that of a file. -/
def DirEntry.outline (e : DirEntry) : String × Option Nat :=
  (e.name, if e.isDirectory then none else some e.size)

/-- What is shown of a node: its name and the size, if it is a file. -/
def Node.outline (x : Node) : String × Option Nat :=
  (x.spelling, x.bytes.map (·.length))

theorem Record.outline_entry (n : Nat) (r : Record) : (r.entry n).outline = r.node.outline := by
  rw [DirEntry.outline, Record.isDirectory_entry]
  obtain ⟨s, b⟩ := r
  cases b with
  | folder => rfl
  | file => rfl

/-- No name in a path has a tilde before a digit, so that none can be a short name that was made
up. -/
def Unmarked (path : String) : Prop :=
  ∀ name ∈ splitPath path, hasMark name.toList = false

theorem Unmarked.key {path : String} (h : Unmarked path) :
    ∀ name ∈ splitPath path, hasMark (key name) = false := by
  intro name hname
  rw [← Bool.not_eq_true]
  intro hmark
  have := hasMark_of_fold hmark
  rw [h name hname] at this
  cases this

/-- Every name in the path of a call is of ASCII and has no tilde. -/
def Call.Plain : Call → Prop
  | makeDirectory path => ∀ name ∈ splitPath path, Fat.Plain name
  | writeFile path _ _ => ∀ name ∈ splitPath path, Fat.Plain name
  | flush => True

instance : DecidablePred Call.Plain
  | .makeDirectory path => inferInstanceAs (Decidable (∀ name ∈ splitPath path, Fat.Plain name))
  | .writeFile path _ _ => inferInstanceAs (Decidable (∀ name ∈ splitPath path, Fat.Plain name))
  | .flush => inferInstanceAs (Decidable True)

namespace Disk

/-- What is read of a disk is what a tree has: at each path there is an entry just if there is a
node, and they look alike; a directory lists each of its nodes once; and the bytes of a file are
those of its node. Paths are followed whatever the case of their names. -/
structure Shows (d : Disk) (t : FileTree) : Prop where
  stat : ∀ path, Unmarked path →
    ∃ e, d.stat path = .ok e ∧ e.map DirEntry.outline = (t.nodes (keys path)).map Node.outline
  list : ∀ path, Unmarked path → t.IsFolder (keys path) →
    ∃ es, d.list path = .ok es ∧ (es.map fun e => key e.name).Nodup ∧
      ∀ k outline, (∃ e ∈ es, key e.name = k ∧ e.outline = outline) ↔
        (t.nodes (keys path ++ [k])).map Node.outline = some outline
  unlisted : ∀ path, Unmarked path → ¬ t.IsFolder (keys path) → ∃ e, d.list path = .error e
  read : ∀ path, Unmarked path → ∀ bytes,
    d.read path = .ok bytes ↔ ∃ spelling, t.nodes (keys path) = some ⟨spelling, some bytes⟩

/-- A disk and a tree go through calls together: the disk shows the tree before each call and in the
end, and each call does to the tree what it should. -/
def Follows : Disk → FileTree → List Call → Prop
  | d, t, [] => d.Shows t
  | d, t, call :: calls =>
    d.Shows t ∧ ∃ t', t.Step call (call.on d).1 t' ∧ (call.on d).2.Follows t' calls

/-! ### What is read -/

section Reading

variable {d : Disk} {G : Catalog} {K : Owner → List Nat} {loose : List Nat} {U : Usage}
  {path : String}

/-- Names without a mark lead to the directory at their place. -/
theorem Holds.resolve_cases (h : d.Holds G K loose) (hopen : d.volume.closed = false)
    (hnamed : G.Named U) {names : List String}
    (hmark : ∀ name ∈ names, U.aside (key name) = false) :
    (∃ c f, d.resolve names = .ok c ∧
        G.dirAt U d.volume.geometry.rootCluster (names.map key) = some c ∧ G c = some f) ∨
      G.dirAt U d.volume.geometry.rootCluster (names.map key) = none ∧
        ((∃ at', d.resolve names = .error (.notFound d.volume.image at')) ∨
          ∃ at', d.resolve names = .error (.notDirectory d.volume.image at')) := by
  obtain ⟨f, hf, -⟩ := h.root
  rw [← hnamed.descend_eq hmark]
  exact h.resolveFrom_cases hopen names [] hf

/-- What is found at a path is the record at its place. -/
theorem Holds.stat_cases (h : d.Holds G K loose) (hopen : d.volume.closed = false)
    (hnamed : G.Named U) (hpath : ∀ name ∈ splitPath path, U.aside (key name) = false) :
    (d.stat path = .ok none ∧ G.nodes U d.volume.geometry.rootCluster (keys path) = none) ∨
      ∃ dir f n r, G dir = some f ∧ (n, r) ∈ f.records ∧ d.stat path = .ok (some (r.entry n)) ∧
        G.nodes U d.volume.geometry.rootCluster (keys path) = some r.node := by
  cases hlast : (splitPath path).getLast? with
  | none =>
    have hnil : splitPath path = [] := List.getLast?_eq_none_iff.1 hlast
    refine .inl ⟨?_, ?_⟩
    · rw [stat]
      simp only [hnil]
      rfl
    · rw [keys, hnil]
      rfl
  | some name =>
    have hname : U.aside (key name) = false := hpath name (List.mem_of_getLast? hlast)
    rw [keys_eq_concat hlast, Catalog.nodes_concat, stat]
    simp only [hlast]
    obtain ⟨c, f, hresolve, hdir, hf⟩ | ⟨hdir, ⟨at', hresolve⟩ | ⟨at', hresolve⟩⟩ :=
      h.resolve_cases hopen hnamed fun name hname => hpath name (List.mem_of_mem_dropLast hname)
    · rw [hresolve, hdir, Option.bind_some, hf, Option.bind_some]
      simp only [h.lookup_eq hopen hf name, (hnamed c f hf).find_eq hname]
      cases hlook : f.look U (key name) with
      | none => exact .inl ⟨rfl, rfl⟩
      | some x => exact .inr ⟨c, f, x.1, x.2, hf, (Folder.key_of_look hlook).1, rfl, rfl⟩
    · rw [hresolve, hdir]
      exact .inl ⟨rfl, rfl⟩
    · rw [hresolve, hdir]
      exact .inl ⟨rfl, rfl⟩

/-- The bytes that are read at a path are those of the file at its place. -/
theorem Holds.read_iff (h : d.Holds G K loose) (hopen : d.volume.closed = false)
    (hnamed : G.Named U) (hpath : ∀ name ∈ splitPath path, U.aside (key name) = false)
    (bytes : Bytes) : d.read path = .ok bytes ↔
      ∃ spelling, G.nodes U d.volume.geometry.rootCluster (keys path) =
        some ⟨spelling, some bytes⟩ := by
  obtain ⟨hstat, hnode⟩ | ⟨dir, f, n, ⟨s, b⟩, hf, hr, hstat, hnode⟩ :=
    h.stat_cases hopen hnamed hpath
  · have hread : d.read path = .error (.notFound d.volume.image (withoutLeadingSlashes path)) := by
      rw [read, hstat]
      rfl
    rw [hread, hnode]
    constructor
    · rintro ⟨⟩
    · rintro ⟨spelling, ⟨⟩⟩
  rw [read_of_stat hstat, Record.isDirectory_entry, hnode, Record.node]
  cases b with
  | folder c =>
    constructor
    · rintro ⟨⟩
    · rintro ⟨spelling, ⟨⟩⟩
  | file c content =>
    have hread := h.bytesOf_eq hopen hf hr
    constructor
    · intro heq
      cases hread.symm.trans heq
      exact ⟨s.shown, rfl⟩
    · rintro ⟨spelling, heq⟩
      cases heq
      exact hread

end Reading

/-! ### A disk and a tree -/

/-- A disk that can be changed holds the catalog of a tree, all of whose names are plain. -/
def Keeps (d : Disk) (t : FileTree) : Prop :=
  d.Writable ∧ ∃ (G : Catalog) (K : Owner → List Nat), d.Holds G K [] ∧ G.Named .plain ∧
    t.nodes = G.nodes .plain d.volume.geometry.rootCluster

variable {d : Disk} {t : FileTree}

/-- What is read of a disk is what its tree has. -/
theorem Keeps.shows (h : d.Keeps t) : d.Shows t := by
  obtain ⟨⟨hopen, -⟩, G, K, hholds, hnamed, hnodes⟩ := h
  constructor
  · intro path hpath
    rw [hnodes]
    obtain ⟨hstat, hnode⟩ | ⟨dir, f, n, r, -, -, hstat, hnode⟩ :=
      hholds.stat_cases hopen hnamed hpath.key
    · exact ⟨_, hstat, by rw [hnode]; rfl⟩
    · refine ⟨_, hstat, ?_⟩
      rw [hnode, Option.map_some, Option.map_some, Record.outline_entry]
  · intro path hpath hfolder
    rw [FileTree.IsFolder, hnodes, Catalog.isFolder_nodes_iff] at hfolder
    obtain ⟨c, hc⟩ := hfolder
    obtain ⟨c', f, hresolve, hdir, hf⟩ | ⟨hnone, -⟩ := hholds.resolve_cases hopen hnamed hpath.key
    · have hlist : d.list path = .ok f.entries := by
        rw [list, hresolve]
        exact hholds.entries_eq hopen hf
      have hmark : ∀ x ∈ f.records, hasMark x.2.key = false := by
        intro x hx
        obtain ⟨name, taken, hplain, hs⟩ := (hnamed c' f hf).chosen x hx
        rw [Record.key, shown_eq hs hplain.1]
        exact hplain.hasMark_eq
      obtain ⟨_, _, _, hstands⟩ := hholds.exists_owner hf
      refine ⟨f.entries, hlist, ?_, fun k outline => ?_⟩
      · have hmap : f.entries.map (fun e => key e.name) = f.records.map fun x => x.2.key := by
          rw [Folder.entries, List.map_map]
          rfl
        rw [hmap]
        refine List.Nodup.map_on (fun x hx y hy => (hnamed c' f hf).unique x hx y hy
          (Usage.plain.not_contested (hmark x hx))) ?_
        exact hstands.nodup_numbers.of_map Prod.fst
      · rw [hnodes, keys, Catalog.nodes_below hdir hf]
        constructor
        · rintro ⟨e, he, rfl, rfl⟩
          obtain ⟨x, hx, rfl⟩ := List.mem_map.1 he
          have hlook := (hnamed c' f hf).look_eq hx (hmark x hx)
          have hkey : key (x.2.entry x.1).name = x.2.key := rfl
          rw [hkey, hlook, Option.map_some, Option.map_some, Record.outline_entry]
        · intro hoption
          cases hlook : f.look .plain k with
          | none =>
            rw [hlook] at hoption
            cases hoption
          | some x =>
            rw [hlook, Option.map_some, Option.map_some, Option.some.injEq] at hoption
            obtain ⟨hx, hkey, -⟩ := Folder.key_of_look hlook
            exact ⟨_, List.mem_map.2 ⟨x, hx, rfl⟩, hkey,
              (Record.outline_entry x.1 x.2).trans hoption⟩
    · rw [keys, hnone] at hc
      cases hc
  · intro path hpath hfolder
    rw [FileTree.IsFolder, hnodes, Catalog.isFolder_nodes_iff] at hfolder
    obtain ⟨c, f, -, hdir, -⟩ | ⟨-, ⟨at', hresolve⟩ | ⟨at', hresolve⟩⟩ :=
      hholds.resolve_cases hopen hnamed hpath.key
    · exact absurd ⟨c, hdir⟩ hfolder
    · exact ⟨_, by rw [list, hresolve]; rfl⟩
    · exact ⟨_, by rw [list, hresolve]; rfl⟩
  · intro path hpath bytes
    rw [hnodes]
    exact hholds.read_iff hopen hnamed hpath.key bytes

/-! ### One call -/

/-- The tree of a catalog. -/
theorem exists_tree {G : Catalog} {root : Nat}
    (h : {place | (G.nodes .plain root place).isSome}.Finite) :
    ∃ t : FileTree, t.nodes = G.nodes .plain root := by
  refine ⟨⟨G.nodes .plain root, rfl, fun place k hsome => ?_, h⟩, rfl⟩
  rw [Catalog.isFolder_nodes_iff, ← Option.isSome_iff_exists]
  rw [Catalog.nodes_concat] at hsome
  exact Option.isSome_of_isSome_bind hsome

/-- Each call changes the tree as it should. -/
theorem Keeps.step (h : d.Keeps t) (call : Call) (hsupplied : call.Supplied)
    (hplain : call.Plain) : ∃ t', t.Step call (call.on d).1 t' ∧ (call.on d).2.Keeps t' := by
  obtain ⟨hw, G, K, hholds, hnamed, hnodes⟩ := h
  cases call with
  | makeDirectory path =>
    obtain ⟨result, d', G', K', found, hrun, hmakes, hresult, hholds', halike⟩ :=
      Edit.makeDirectory_cases hholds hw.1 hw.2 path
    have hroot : G.dirAt .plain d.volume.geometry.rootCluster [] =
        some d.volume.geometry.rootCluster := rfl
    obtain ⟨done, rest, hpath, hadded, ⟨c, hreached⟩, hstop⟩ :=
      hmakes.nodes ⟨d, K, [], hholds, rfl⟩ hnamed hplain hroot
    have hfinite := Nodes.finite_addFolders t.finite [] done
    rw [hnodes, ← hadded] at hfinite
    obtain ⟨t', ht'⟩ := exists_tree hfinite
    have hfolder : t'.IsFolder (done.map key) := by
      rw [FileTree.IsFolder, ht', Catalog.isFolder_nodes_iff]
      exact ⟨c, hreached⟩
    have hnodes' : t'.nodes = t.nodes.addFolders [] done := by rw [ht', hnodes, hadded]
    rw [Call.on_makeDirectory hrun]
    refine ⟨t', ?_, halike.writable hw, G', K', hholds', hmakes.named hnamed hplain,
      by rw [ht', halike.geometry]⟩
    rcases hstop with ⟨rfl, c, hfound⟩ | ⟨hfound, name, rest, rfl, hmissing⟩
    · rw [List.append_nil] at hpath
      rw [(hresult c).2 hfound]
      exact .made (hpath ▸ hnodes') (by rwa [keys, hpath])
    · cases result with
      | ok c =>
        rw [(hresult c).1 rfl] at hfound
        cases hfound
      | error e =>
        refine .stopped hpath hnodes' hfolder ?_
        rw [FileTree.IsFolder, ht', Catalog.isFolder_nodes_iff]
        rintro ⟨c, hc⟩
        rw [List.nil_append, hc] at hmissing
        cases hmissing
  | writeFile path source size =>
    obtain ⟨result, d', hrun, hwrites⟩ := Edit.writeFile_on hholds hw.1 hw.2 path source size
    have hon : (Call.writeFile path source size).on d = (result, d') := hrun
    rw [hon]
    obtain ⟨e, rfl, rfl⟩ | ⟨rfl, halike, names, name, taken, s, G', K', hpath, hs, hholds', hnamed',
        hunmarked⟩ := hwrites.nodes hholds hnamed hsupplied hplain
    · exact ⟨t, .refused, hw, G, K, hholds, hnamed, hnodes⟩
    · obtain ⟨hfolder, hname, hput⟩ := hunmarked fun name hname => (hplain name hname).hasMark_eq
      have hmem : name ∈ splitPath path :=
        hpath ▸ List.mem_append_right _ (List.mem_singleton_self _)
      rw [shown_eq hs (hplain name hmem).1, ← hnodes] at hput
      rw [← hnodes] at hfolder hname
      obtain ⟨t', ht'⟩ := exists_tree (hput ▸ Nodes.finite_put t.finite _ _)
      exact ⟨t', .written hpath hfolder hname (ht'.trans hput), halike.writable hw, G', K', hholds',
        hnamed', by rw [ht', halike.geometry]⟩
  | flush =>
    obtain ⟨hflush, hholds'⟩ := hholds.flush hw.1 hw.2
    rw [Call.on_flush hflush]
    exact ⟨t, .flushed, ⟨hw.1, hw.2⟩, G, K, hholds', hnamed, hnodes⟩

/-! ### Any calls -/

/-- A disk and its tree go through calls together. -/
theorem Keeps.follows (h : d.Keeps t) (calls : List Call)
    (hsupplied : ∀ call ∈ calls, call.Supplied) (hplain : ∀ call ∈ calls, call.Plain) :
    d.Follows t calls := by
  induction calls generalizing d t with
  | nil => exact h.shows
  | cons call calls ih =>
    rw [List.forall_mem_cons] at hsupplied hplain
    obtain ⟨t', hstep, hkeeps⟩ := h.step call hsupplied.1 hplain.1
    exact ⟨h.shows, t', hstep, ih hkeeps hsupplied.2 hplain.2⟩

/-- A new volume keeps the empty tree. -/
theorem Fresh.keeps (h : d.Fresh) : d.Keeps .empty := by
  obtain ⟨hopen, hwritable, hholds⟩ := h.holds
  refine ⟨⟨hopen, hwritable⟩, _, _, hholds, named_newCatalog d, ?_⟩
  funext place
  rcases List.eq_nil_or_concat' place with rfl | ⟨place, k, rfl⟩
  · rfl
  · rw [Catalog.nodes_concat]
    cases hdir : d.newCatalog.dirAt .plain d.volume.geometry.rootCluster place with
    | none => rfl
    | some c =>
      cases hf : d.newCatalog c with
      | none =>
        rw [Option.bind_some, hf]
        rfl
      | some f =>
        obtain ⟨-, rfl⟩ := newCatalog_eq_some.1 hf
        rw [Option.bind_some, hf, Option.bind_some, Folder.look_eq_none (by simp)]
        rfl

/-- A volume that was formatted goes through any calls like an empty tree, as long as each name in
their paths is of ASCII and has no tilde, and each source has the bytes that are asked of it. -/
theorem Fresh.follows_empty (h : d.Fresh) (calls : List Call)
    (hsupplied : ∀ call ∈ calls, call.Supplied) (hplain : ∀ call ∈ calls, call.Plain) :
    d.Follows .empty calls :=
  h.keeps.follows calls hsupplied hplain

/-- A file that is written twice, the second time under another case of its names. -/
theorem exists_follows_replaced_file : ∃ d : Disk, d.Fresh ∧
    d.Follows .empty [.makeDirectory "bin",
      .writeFile "/bin/Read me.txt" (Content.ofBytes [1, 2]) 2,
      .writeFile "/BIN/README.TXT" (Content.ofBytes [3]) 1,
      .writeFile "/Bin/read ME.txt" (Content.ofBytes [4, 5, 6]) 3] := by
  obtain ⟨d, hfresh⟩ := exists_fresh
  refine ⟨d, hfresh, hfresh.follows_empty _ (fun call hcall => ?_) (by decide)⟩
  simp only [List.mem_cons, List.not_mem_nil, or_false] at hcall
  rcases hcall with rfl | rfl | rfl | rfl
  · trivial
  · rw [Call.supplied_iff]
    simp
  · rw [Call.supplied_iff]
    simp
  · rw [Call.supplied_iff]
    simp

end Disk

end BootImage.Fat
