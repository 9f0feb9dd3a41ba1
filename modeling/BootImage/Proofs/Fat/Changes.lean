import BootImage.Proofs.Fat.Paths

/-!
# What calls do to the tree

A call changes folders, and the names of a catalog stay told apart. If the names of a path have no
mark of an alias, what a call does to the tree below the root can be read off the path.

## Main results

* `Catalog.Makes.named`, `Catalog.Makes.nodes`: directories are made.
* `Disk.Writes.named`, `Disk.Writes.nodes`: a file is written.
-/

namespace BootImage.Fat

/-! ### Plain names -/

/-- A name of ASCII without a tilde. -/
def Plain (name : String) : Prop :=
  (∀ c ∈ name.toList, c.toNat < 0x80) ∧ '~' ∉ name.toList

instance : DecidablePred Plain := fun name =>
  decidable_of_iff ((name.toList.all fun c => c.toNat < 0x80) = true ∧ '~' ∉ name.toList) <|
    and_congr_left fun _ => ⟨Text.ascii_of_all, fun h => by simpa using h⟩

namespace Plain

variable {name : String}

theorem legible (h : Plain name) : Legible name.toList :=
  legible_of_ascii h.1

theorem hasMark_eq (h : Plain name) : hasMark (key name) = false := by
  rw [← Bool.not_eq_true]
  intro hmark
  have := hasMark_of_fold hmark
  rw [hasMark_eq_false_of_notMem h.2] at this
  cases this

/-- No alias is read like a plain name. -/
theorem not_contested (h : Plain name) {P : String → Prop} : ¬ Contested P (key name) := by
  intro hcontested
  have hmark := hcontested.hasMark
  rw [h.hasMark_eq] at hmark
  cases hmark

end Plain

/-- The usage of plain names. -/
def Usage.plain : Usage :=
  .marked Plain fun _ h => h.legible

variable {U : Usage}

namespace Catalog

variable {G G' : Catalog} {root dir up : Nat} {f f' : Folder} {names : List String}
  {found : Option Nat} {place : List Key}

theorem Named.withFolder (h : G.Named U) (hf' : f'.Named U) (dir up : Nat) (b : Body) :
    (G.withFolder dir up f' b).Named U := by
  intro c g hg
  rcases withFolder_eq_some hg with ⟨-, rfl⟩ | ⟨-, rfl⟩ | ⟨-, hg⟩
  · exact ⟨by simp, by simp⟩
  · exact hf'
  · exact h c g hg

theorem Named.replace (h : G.Named U) (hf : f.Named U) (dir : Nat) : (G.replace dir f).Named U := by
  intro c g hg
  rcases replace_eq_some hg with ⟨-, rfl⟩ | ⟨-, hg⟩
  · exact hf
  · exact h c g hg

/-! ### Making directories -/

/-- Making directories keeps the names of a catalog told apart. -/
theorem Makes.named (h : Makes root G dir names found G') (hnamed : G.Named U)
    (hnames : ∀ name ∈ names, U.used name) : G'.Named U := by
  induction h with
  | done => exact hnamed
  | enter _ _ _ _ ih =>
    rw [List.forall_mem_cons] at hnames
    exact ih hnamed hnames.2
  | blocked => exact hnamed
  | refused => exact hnamed
  | create hf hfind hs _ hadds _ _ ih =>
    rw [List.forall_mem_cons] at hnames
    refine ih (hnamed.withFolder ?_ _ _ _) hnames.2
    exact (hnamed _ _ hf).add hadds hs hnames.1 fun x hx hkey =>
      absurd hkey (Folder.key_ne_of_find_eq_none hfind hx)

/-- What making directories with plain names does to the tree: those that are missing are made, up
to the first name that is that of a file or cannot be stored. -/
theorem Makes.nodes (h : Makes root G dir names found G') (hheld : G.Held root)
    (hnamed : G.Named .plain) (hnames : ∀ name ∈ names, Plain name)
    (hdir : G.dirAt .plain root place = some dir) :
    ∃ done rest, names = done ++ rest ∧
      G'.nodes .plain root = (G.nodes .plain root).addFolders place done ∧
      (∃ c, G'.dirAt .plain root (place ++ done.map key) = some c) ∧
      (rest = [] ∧ (∃ c, found = some c) ∨ found = none ∧ ∃ name rest', rest = name :: rest' ∧
        G'.dirAt .plain root (place ++ done.map key ++ [key name]) = none) := by
  induction h generalizing place with
  | done => exact ⟨[], [], rfl, rfl, ⟨_, by rw [List.map_nil, List.append_nil, hdir]⟩,
      .inl ⟨rfl, _, rfl⟩⟩
  | @enter G G' dir n f r name rest found hf hfind hfolder hrest ih =>
    rw [List.forall_mem_cons] at hnames
    have hlook : f.look .plain (key name) = some (n, r) := by
      rw [← (hnamed dir f hf).find_eq hnames.1.hasMark_eq, hfind]
    have hentered : G.dirAt .plain root (place ++ [key name]) = some r.body.first := by
      rw [dirAt_below hdir hf, hlook, Option.bind_some, if_pos hfolder]
    have hsome : (G.nodes .plain root (place ++ [key name])).isSome := by
      rw [nodes_below hdir hf, hlook]
      rfl
    obtain ⟨done, rest', rfl, hnodes, hreached, hstop⟩ := ih hheld hnamed hnames.2 hentered
    rw [List.append_assoc, List.singleton_append, ← List.map_cons] at hreached hstop
    refine ⟨name :: done, rest', rfl, ?_, hreached, hstop⟩
    rw [hnodes, Nodes.addFolders, if_pos hsome]
  | @blocked G dir n f r name rest hf hfind hfile =>
    rw [List.forall_mem_cons] at hnames
    refine ⟨[], name :: rest, rfl, rfl, ⟨dir, ?_⟩, .inr ⟨rfl, name, rest, rfl, ?_⟩⟩
    · rw [List.map_nil, List.append_nil, hdir]
    · rw [List.map_nil, List.append_nil, dirAt_below hdir hf,
        ← (hnamed dir f hf).find_eq hnames.1.hasMark_eq, hfind, Option.bind_some, hfile]
      rfl
  | @refused G dir f name rest hf hfind =>
    rw [List.forall_mem_cons] at hnames
    refine ⟨[], name :: rest, rfl, rfl, ⟨dir, ?_⟩, .inr ⟨rfl, name, rest, rfl, ?_⟩⟩
    · rw [List.map_nil, List.append_nil, hdir]
    · rw [List.map_nil, List.append_nil, dirAt_below hdir hf,
        ← (hnamed dir f hf).find_eq hnames.1.hasMark_eq, hfind]
      rfl
  | @create G G' dir n c f f' s name rest found hf hfind hs hnew hadds hheld' hrest ih =>
    rw [List.forall_mem_cons] at hnames
    have hshown : s.shown = name := shown_eq hs hnames.1.1
    have hkey : Record.key ⟨s, .folder c⟩ = key name := congrArg key hshown
    have hmark : hasMark (Record.key ⟨s, .folder c⟩) = false := hkey ▸ hnames.1.hasMark_eq
    have hnone : f.look .plain (Record.key ⟨s, .folder c⟩) = none := by
      rw [hkey, ← (hnamed dir f hf).find_eq hnames.1.hasMark_eq, hfind]
    have hnamed' : f'.Named .plain := (hnamed dir f hf).add hadds hs hnames.1
      fun x hx heq => absurd heq (Folder.key_ne_of_find_eq_none hfind hx)
    have hbody : ∀ c', (⟨s, .folder c⟩ : Record).body = .folder c' → G c' = none := by
      rintro c' ⟨⟩
      exact hnew
    have hnodes₁ := nodes_withFolder (if dir = root then 0 else dir) hheld hf hbody
      (hnamed dir f hf) hnamed' hadds hmark hnone hdir
    have hdir₁ := (dirAt_withFolder (if dir = root then 0 else dir) hheld hf hbody
      (hnamed dir f hf) hnamed' hadds hmark hnone hdir (place ++ [key name]) c).2
      (.inr ⟨rfl, by rw [hkey]⟩)
    obtain ⟨done, rest', rfl, hnodes, hreached, hstop⟩ :=
      ih hheld' (hnamed.withFolder hnamed' _ _ _) hnames.2 hdir₁
    rw [List.append_assoc, List.singleton_append, ← List.map_cons] at hreached hstop
    refine ⟨name :: done, rest', rfl, ?_, hreached, hstop⟩
    have hmissing : ¬ (G.nodes .plain root (place ++ [key name])).isSome := by
      rw [nodes_below hdir hf, ← hkey, hnone]
      exact Bool.false_ne_true
    have hnode : (⟨s, .folder c⟩ : Record).node = ⟨name, none⟩ := by
      rw [Record.node, hshown]
      rfl
    rw [hnodes, Nodes.addFolders, if_neg hmissing, hnodes₁, hkey, hnode]

/-! ### Adding a file -/

/-- A file is added to a folder in which no other name is read like its own. -/
theorem Named.addFile {n c : Nat} {s : Spelling} {name : String} {taken : Bytes → Bool}
    {bytes : Bytes} (h : G.Named U) (hheld : G.Held root)
    (hf : G dir = some f) (hname : U.used name) (hs : spellingOf name taken = .ok s)
    (hadds : f.Adds n ⟨s, .file c bytes⟩ f')
    (hfree : ∀ x ∈ f.records, x.2.key = key name → Contested U.used (key name)) (up : Nat) :
    (G.withFolder dir up f' (.file c bytes)).Named U ∧
      (U.aside (key name) = false → ∀ place, G.dirAt U root place = some dir →
        (G.withFolder dir up f' (.file c bytes)).nodes U root =
          (G.nodes U root).put (place ++ [key name]) (some ⟨s.shown, some bytes⟩)) := by
  have hf' : f'.Named U := (h dir f hf).add hadds hs hname hfree
  refine ⟨h.withFolder hf' dir up _, fun hmark place hdir => ?_⟩
  have hkey : Record.key ⟨s, .file c bytes⟩ = key name := fold_shown hs (U.legible name hname)
  have hnone : f.look U (Record.key ⟨s, .file c bytes⟩) = none := by
    rw [hkey]
    refine Folder.look_eq_none fun x hx heq => ?_
    exact absurd (hfree x hx heq) (U.not_contested hmark)
  have hbody : ∀ c', (⟨s, .file c bytes⟩ : Record).body = .folder c' → G c' = none := by
    rintro c' ⟨⟩
  have hnodes := nodes_withFolder up hheld hf hbody (h dir f hf) hf' hadds (hkey ▸ hmark)
    hnone hdir
  rw [hkey] at hnodes
  exact hnodes

end Catalog

/-! ### Writing files -/

namespace Disk

variable {d d' : Disk} {G : Catalog} {K : Owner → List Nat} {loose : List Nat} {path : String}
  {source : Content} {size : Int} {result : Except Error Unit}

/-- A new volume has no names. -/
theorem named_newCatalog (d : Disk) : d.newCatalog.Named U := by
  intro c f hf
  obtain ⟨-, rfl⟩ := newCatalog_eq_some.1 hf
  exact ⟨by simp, by simp⟩

/-- Storing a file under a name that is not how another is read keeps the names of the catalog told
apart, whatever its source gives. -/
theorem Stores.named {dir : Nat} {f : Folder} {name : String}
    (h : d.Stores G loose dir f name path source size result d')
    (hholds : d.Holds G K loose) (hnamed : G.Named U)
    (hf : G dir = some f) (hname : U.used name)
    (hfree : ∀ x ∈ f.records, x.2.key = key name → Contested U.used (key name)) :
    d.Alike d' ∧ ∃ G' K' loose', d'.Holds G' K' loose' ∧ G'.Named U := by
  cases h with
  | negative hsize => exact ⟨.refl d, G, K, loose, hholds, hnamed⟩
  | short hsize hshort halike hless => exact ⟨halike, G, _, _, hshort, hnamed⟩
  | stored hpos hsize hspelling hadds hstored halike =>
    refine ⟨halike, _, _, loose, hstored, hnamed.withFolder ?_ _ _ _⟩
    exact (hnamed dir f hf).add hadds hspelling hname hfree

/-- Writing a file keeps the names of the catalog told apart, whatever its source gives. -/
theorem Writes.named (h : d.Writes G loose path source size result d')
    (hholds : d.Holds G K loose) (hnamed : G.Named U)
    (hpath : ∀ name ∈ splitPath path, U.used name) :
    d.Alike d' ∧ ∃ G' K' loose', d'.Holds G' K' loose' ∧ G'.Named U := by
  cases h with
  | refused => exact ⟨.refl d, G, K, loose, hholds, hnamed⟩
  | @fresh dir name f result d' hname hdir hf hfind hstores =>
    exact hstores.named hholds hnamed hf (hpath name (List.mem_of_getLast? hname))
      fun x hx hkey => absurd hkey (Folder.key_ne_of_find_eq_none hfind hx)
  | @replaced dir n name f f₁ r d₁ K₁ result d' hname hdir hf hfind hfile hadds₁ hholds₁ halike₁
      hstores =>
    obtain ⟨_, _, _, hstands⟩ := hholds.exists_owner hf
    obtain ⟨halike, hafter⟩ := hstores.named hholds₁
      (hnamed.replace ((hnamed dir f hf).remove hadds₁) dir) (Catalog.replace_self ..)
      (hpath name (List.mem_of_getLast? hname)) fun x hx =>
        (hnamed dir f hf).contested_of_find hadds₁ (hadds₁.number_new hstands r) hfind hx
    exact ⟨halike₁.trans halike, hafter⟩

/-- Writing a file changes nothing, or keeps the names of the catalog told apart. If no name of its
path has a mark, it puts a node at its place. -/
theorem Writes.nodes (h : d.Writes G loose path source size result d')
    (hholds : d.Holds G K loose) (hnamed : G.Named U)
    (hsupplied : (Call.writeFile path source size).Supplied)
    (hpath : ∀ name ∈ splitPath path, U.used name) :
    (∃ e, result = .error e ∧ d' = d) ∨ result = .ok () ∧ d.Alike d' ∧
      ∃ names name taken s G' K', splitPath path = names ++ [name] ∧
        spellingOf name taken = .ok s ∧ d'.Holds G' K' loose ∧ G'.Named U ∧
        ((∀ name ∈ splitPath path, U.aside (key name) = false) →
          (G.nodes U d.volume.geometry.rootCluster).IsFolder (names.map key) ∧
          ¬ (G.nodes U d.volume.geometry.rootCluster).IsFolder (keys path) ∧
          G'.nodes U d.volume.geometry.rootCluster = (G.nodes U d.volume.geometry.rootCluster).put
            (keys path) (some ⟨s.shown, some (source.read 0 size.toNat)⟩)) := by
  have hlast : ∀ {name}, (splitPath path).getLast? = some name →
      splitPath path = (splitPath path).dropLast ++ [name] := fun hname =>
    (List.dropLast_append_getLast? _ hname).symm
  have hheld : G.Held d.volume.geometry.rootCluster := ⟨d, K, loose, hholds, rfl⟩
  cases h with
  | refused => exact .inl ⟨_, rfl, rfl⟩
  | @fresh dir name f result d' hname hdir hf hfind hstores =>
    right
    obtain ⟨rfl, halike, K', s, n, c, f', hs, hadds, hholds'⟩ := hstores.of_supplied hsupplied
    have hmem : name ∈ splitPath path := List.mem_of_getLast? hname
    obtain ⟨hnamed', hnodes⟩ := hnamed.addFile hheld hf (hpath name hmem) hs hadds
      (fun x hx hkey => absurd hkey (Folder.key_ne_of_find_eq_none hfind hx)) (d.upFrom dir)
    refine ⟨rfl, halike, _, name, _, s, _, K', hlast hname, hs, hholds', hnamed', fun hmark => ?_⟩
    have hplace : G.dirAt U d.volume.geometry.rootCluster ((splitPath path).dropLast.map key) =
        some dir := by
      rw [← hnamed.descend_eq fun name hname => hmark name (List.mem_of_mem_dropLast hname), hdir]
    refine ⟨Catalog.isFolder_nodes_iff.2 ⟨dir, hplace⟩, ?_, ?_⟩
    · rw [Catalog.isFolder_nodes_iff, keys_eq_concat hname, Catalog.dirAt_below hplace hf,
        ← (hnamed dir f hf).find_eq (hmark name hmem), hfind]
      rintro ⟨c, ⟨⟩⟩
    · rw [keys_eq_concat hname]
      exact hnodes (hmark name hmem) _ hplace
  | @replaced dir n name f f₁ r d₁ K₁ result d' hname hdir hf hfind hfile hadds₁ hholds₁ halike₁
      hstores =>
    right
    obtain ⟨rfl, halike, K', s, n', c, f', hs, hadds, hholds'⟩ := hstores.of_supplied hsupplied
    have hmem : name ∈ splitPath path := List.mem_of_getLast? hname
    have hnamed₁ : (G.replace dir f₁).Named U :=
      hnamed.replace ((hnamed dir f hf).remove hadds₁) dir
    have hheld₁ : (G.replace dir f₁).Held d.volume.geometry.rootCluster :=
      ⟨d₁, K₁, loose, hholds₁, by rw [halike₁.geometry]⟩
    have hlook : U.aside (key name) = false → f.look U (key name) = some (n, r) := fun hmark => by
      rw [← (hnamed dir f hf).find_eq hmark, hfind]
    obtain ⟨_, _, _, hstands⟩ := hholds.exists_owner hf
    have hfree : ∀ x ∈ f₁.records, x.2.key = key name → Contested U.used (key name) := fun x hx =>
      (hnamed dir f hf).contested_of_find hadds₁ (hadds₁.number_new hstands r) hfind hx
    obtain ⟨hnamed', hnodes⟩ := hnamed₁.addFile hheld₁ (Catalog.replace_self ..)
      (hpath name hmem) hs hadds hfree (d₁.upFrom dir)
    refine ⟨rfl, halike₁.trans halike, _, name, _, s, _, K', hlast hname, hs, hholds', hnamed',
      fun hmark => ?_⟩
    have hplace : G.dirAt U d.volume.geometry.rootCluster ((splitPath path).dropLast.map key) =
        some dir := by
      rw [← hnamed.descend_eq fun name hname => hmark name (List.mem_of_mem_dropLast hname), hdir]
    have hrkey := (Folder.key_of_look (hlook (hmark name hmem))).2.1
    have hnone : f₁.look U r.key = none := by
      refine Folder.look_eq_none fun x hx hkey => ?_
      rw [hrkey] at hkey
      exact absurd (hfree x hx hkey) (U.not_contested (hmark name hmem))
    obtain ⟨hdirs₁, hnodes₁⟩ := Catalog.nodes_replace hheld hf (hnamed dir f hf) hadds₁
      (hrkey ▸ hmark name hmem) hnone hfile hplace
    refine ⟨Catalog.isFolder_nodes_iff.2 ⟨dir, hplace⟩, ?_, ?_⟩
    · rw [Catalog.isFolder_nodes_iff, keys_eq_concat hname, Catalog.dirAt_below hplace hf,
        hlook (hmark name hmem), Option.bind_some, hfile]
      rintro ⟨c, ⟨⟩⟩
    · rw [hnodes (hmark name hmem) _ (hdirs₁ ▸ hplace), hnodes₁, hrkey, keys_eq_concat hname,
        Nodes.put, Nodes.put, Nodes.put, Function.update_idem]

end Disk

end BootImage.Fat
