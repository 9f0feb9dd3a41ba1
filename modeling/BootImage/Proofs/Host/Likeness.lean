import BootImage.Proofs.Host.Growth

/-!
# File trees that are alike

Two trees are alike if the same things are at the same places, but that some files may hold other
bytes. Where a path leads does not depend on what a file holds, so all operations do the same on
trees that are alike, unless they read such a file. If the same is stored in such a file in both
trees, it is one less. Whether a file may be started is left out: nothing here asks for it.

## Main definitions

* `Coincide`: two attempts fail alike, or their results are related.
* `FileTree.Like`: two trees are alike, but for the bytes of some files.

## Main results

* `FileTree.Like.locate`, `FileTree.Like.isFile`, `FileTree.Like.read`: looking up.
* `FileTree.Like.write`, `FileTree.Like.makeDirectories`: changing.
-/

namespace BootImage.Host

/-- Two attempts fail alike, or give results that are related. -/
inductive Coincide {ε α : Type} (R : α → α → Prop) : Except ε α → Except ε α → Prop
  | error (e : ε) : Coincide R (.error e) (.error e)
  | ok {a b : α} (h : R a b) : Coincide R (.ok a) (.ok b)

theorem Coincide.mono {ε α : Type} {R S : α → α → Prop} {r r' : Except ε α} (h : Coincide R r r')
    (hS : ∀ a b, R a b → S a b) : Coincide S r r' := by
  cases h with
  | error e => exact .error e
  | ok h => exact .ok (hS _ _ h)

namespace FileTree

/-- Nothing in both trees, or a directory in both, or a file in both, with the same bytes if they
have to be the same. -/
inductive LikeNode (same : Prop) : Option Node → Option Node → Prop
  | none : LikeNode same none none
  | directory : LikeNode same (some .directory) (some .directory)
  | file {c c' : Content} (executable executable' : Bool) (h : same → c = c') :
    LikeNode same (some (.file c executable)) (some (.file c' executable'))

/-- Two trees are alike, but for the bytes of files at the places `away`. -/
structure Like (away : Set (List String)) (t t' : FileTree) : Prop where
  current : t.current = t'.current
  node : ∀ place, LikeNode (place ∉ away) (t.node? place) (t'.node? place)

variable {away away' : Set (List String)} {t t' : FileTree} {p : Path} {c c' : Content}
  {place : List String}

theorem LikeNode.refl (same : Prop) (node : Option Node) : LikeNode same node node := by
  cases node with
  | none => exact .none
  | some node =>
    cases node with
    | directory => exact .directory
    | file c executable => exact .file _ _ fun _ => rfl

theorem Like.refl (away : Set (List String)) (t : FileTree) : t.Like away t :=
  ⟨rfl, fun _ => .refl _ _⟩

theorem LikeNode.trans {same : Prop} {a b c : Option Node} (h : LikeNode same a b)
    (h' : LikeNode same b c) : LikeNode same a c := by
  cases h with
  | none => exact h'
  | directory => exact h'
  | file _ _ hc =>
    cases h' with
    | file _ _ hc' => exact .file _ _ fun hsame => (hc hsame).trans (hc' hsame)

theorem Like.trans {t'' : FileTree} (h : t.Like away t') (h' : t'.Like away t'') :
    t.Like away t'' :=
  ⟨h.current.trans h'.current, fun place => (h.node place).trans (h'.node place)⟩

/-! ### Looking up -/

theorem Like.locateFrom (h : t.Like away t') (here names : List String) :
    t.locateFrom here names = t'.locateFrom here names := by
  induction names generalizing here with
  | nil => rfl
  | cons name names ih =>
    have hnode := h.node here
    rw [FileTree.locateFrom, FileTree.locateFrom]
    generalize t.node? here = a at hnode ⊢
    generalize t'.node? here = b at hnode ⊢
    cases hnode with
    | none => rfl
    | directory => simp only [ih]
    | file => rfl

theorem Like.start (h : t.Like away t') (p : Path) : t.start p = t'.start p := by
  rw [FileTree.start, FileTree.start, h.current]

/-- A path leads to the same place in both trees. -/
theorem Like.locate (h : t.Like away t') (p : Path) : t.locate p = t'.locate p := by
  rw [FileTree.locate, FileTree.locate, h.start, h.locateFrom]

/-- What a path leads to in the two trees. -/
theorem Like.find? (h : t.Like away t') (p : Path) :
    LikeNode (∀ place, t.locate p = .ok place → place ∉ away) (t.find? p) (t'.find? p) := by
  rw [FileTree.find?, FileTree.find?, ← h.locate]
  cases hplace : t.locate p with
  | error fault => exact .none
  | ok place =>
    have hnode := h.node place
    simp only [Except.ok.injEq, forall_eq']
    exact hnode

theorem Like.isFile (h : t.Like away t') (p : Path) : t.isFile p = t'.isFile p := by
  rw [FileTree.isFile, FileTree.isFile, probe, probe, ← h.locate]
  cases t.locate p with
  | error fault => cases fault <;> rfl
  | ok place =>
    have hnode := h.node place
    simp only
    generalize t.node? place = a at hnode ⊢
    generalize t'.node? place = b at hnode ⊢
    cases hnode with
    | none => rfl
    | directory => rfl
    | file => rfl

/-- A file is read alike, if its bytes have to be the same. -/
theorem Like.read (h : t.Like away t') (hp : ∀ place ∈ away, t.locate p ≠ .ok place) :
    t.read p = t'.read p := by
  rw [FileTree.read, FileTree.read, ← h.locate]
  cases hplace : t.locate p with
  | error fault => rfl
  | ok place =>
    have hnode := h.node place
    have hsame : place ∉ away := fun haway => hp place haway hplace
    simp only [bind, Except.bind]
    generalize t.node? place = a at hnode ⊢
    generalize t'.node? place = b at hnode ⊢
    cases hnode with
    | none => rfl
    | directory => rfl
    | file _ _ h => rw [h hsame]

/-- A file has the same bytes in both trees, where they have to be the same. -/
theorem Like.content? (h : t.Like away t') (hplace : place ∉ away) :
    t.content? place = t'.content? place := by
  have hnode := h.node place
  rw [FileTree.content?, FileTree.content?]
  generalize t.node? place = a at hnode ⊢
  generalize t'.node? place = b at hnode ⊢
  cases hnode with
  | none => rfl
  | directory => rfl
  | file _ _ hc => rw [hc hplace]

/-- A file that can be read in one of the trees can be read in the other. -/
theorem Like.exists_read (h : t.Like away t') (hread : t.read p = .ok c) :
    ∃ c', t'.read p = .ok c' := by
  obtain ⟨place, hplace, hc⟩ := read_eq_ok.1 hread
  obtain ⟨executable, hfile⟩ := content?_eq_some.1 hc
  have hnode := h.node place
  rw [hfile] at hnode
  generalize hfile' : t'.node? place = node at hnode
  cases hnode with
  | file =>
    exact ⟨_, read_eq_ok.2 ⟨place, (h.locate p).symm.trans hplace, content?_eq_some.2 ⟨_, hfile'⟩⟩⟩

theorem LikeNode.isSome {same : Prop} {a b : Option Node} (h : LikeNode same a b) :
    a.isSome = b.isSome := by
  cases h <;> rfl

theorem Like.missingFrom (h : t.Like away t') (here names : List String) :
    t.missingFrom here names = t'.missingFrom here names := by
  induction names generalizing here with
  | nil => rfl
  | cons name names ih => simp only [FileTree.missingFrom, (h.node _).isSome, ih]

/-! ### Changing -/

theorem LikeNode.mono {same same' : Prop} {a b : Option Node} (h : LikeNode same a b)
    (hsame : same' → same) : LikeNode same' a b := by
  cases h with
  | none => exact .none
  | directory => exact .directory
  | file executable executable' hc => exact .file _ _ fun h => hc (hsame h)

/-- The trees stay alike if the same is put at a place of both, or if it is one that may differ. -/
theorem Like.putNode (h : t.Like away t') (place : List String)
    (haway : ∀ other ∈ away, other ≠ place → other ∈ away') {node node' : Node}
    (hnode : LikeNode (place ∉ away') (some node) (some node')) :
    (t.putNode place node).Like away' (t'.putNode place node') := by
  refine ⟨h.current, fun other => ?_⟩
  rw [node?_putNode, node?_putNode]
  split
  · rename_i heq
    subst heq
    exact hnode
  · rename_i hne
    exact (h.node other).mono fun hother hmem => hother (haway other hmem fun heq => hne heq.symm)

theorem Like.makeFrom (h : t.Like away t') (here names : List String) :
    (t.makeFrom here names).1 = (t'.makeFrom here names).1 ∧
      (t.makeFrom here names).2.Like away (t'.makeFrom here names).2 := by
  induction names generalizing t t' here with
  | nil => exact ⟨rfl, h⟩
  | cons name names ih =>
    have hnode := h.node (here ++ [name])
    have hput := h.putNode (here ++ [name]) (fun _ hmem _ => hmem) .directory
    rw [FileTree.makeFrom, FileTree.makeFrom]
    split
    · exact ih h _
    · split
      · exact ⟨rfl, h⟩
      · generalize t.node? (here ++ [name]) = a at hnode ⊢
        generalize t'.node? (here ++ [name]) = b at hnode ⊢
        cases hnode with
        | none => exact ih hput _
        | directory => exact ih h _
        | file => exact ⟨rfl, h⟩

theorem Like.makeDirectories (h : t.Like away t') (p : Path) :
    (t.makeDirectories p).1 = (t'.makeDirectories p).1 ∧
      (t.makeDirectories p).2.Like away (t'.makeDirectories p).2 := by
  rw [FileTree.makeDirectories, FileTree.makeDirectories, ← h.locate, ← h.start, ← h.missingFrom]
  split
  · rename_i place _
    have hnode := h.node place
    have hput := h.putNode place (fun _ hmem _ => hmem) .directory
    generalize t.node? place = a at hnode ⊢
    generalize t'.node? place = b at hnode ⊢
    cases hnode with
    | none => exact ⟨rfl, hput⟩
    | directory => exact ⟨rfl, h⟩
    | file => exact ⟨rfl, h⟩
  · split
    · exact ⟨rfl, h⟩
    · exact h.makeFrom _ _
  · exact ⟨rfl, h⟩

/-- A file is stored alike. The place that it goes to may be one where the trees differ. -/
theorem Like.write (h : t.Like away t')
    (hp : ∀ place, t.locate p = .ok place → (∀ other ∈ away, other ≠ place → other ∈ away') ∧
      (place ∉ away' → c = c')) : Coincide (Like away') (t.write p c) (t'.write p c') := by
  rw [FileTree.write, FileTree.write, ← h.locate]
  cases hplace : t.locate p with
  | error fault => exact .error fault
  | ok place =>
    have hnode := h.node place
    obtain ⟨haway, hc⟩ := hp place hplace
    have hput : (t.put place c).Like away' (t'.put place c') :=
      h.putNode place haway (.file _ _ hc)
    simp only [bind, Except.bind]
    generalize t.node? place = a at hnode ⊢
    generalize t'.node? place = b at hnode ⊢
    cases hnode with
    | none => exact .ok hput
    | directory => exact .error _
    | file => exact .ok hput

/-- When a file is stored again, all else stays as it is. -/
theorem like_put (hc : t.content? place = some c) (c' : Content) :
    t.Like {place} (t.put place c') := by
  obtain ⟨executable, hfile⟩ := content?_eq_some.1 hc
  refine ⟨rfl, fun other => ?_⟩
  rw [put, node?_putNode]
  split
  · rename_i heq
    subst heq
    rw [hfile]
    exact .file _ _ fun hother => absurd rfl hother
  · exact .refl _ _

theorem Like.mono (h : t.Like away t') (haway : away ⊆ away') : t.Like away' t' :=
  ⟨h.current, fun place => (h.node place).mono fun hplace hmem => hplace (haway hmem)⟩

/-- What is read at a place tells what is there. -/
theorem likeNode_of_read (hplace : t.locate p = .ok place) (hplace' : t'.locate p = .ok place)
    (hread : t.read p = t'.read p) (same : Prop) :
    LikeNode same (t.node? place) (t'.node? place) := by
  rw [FileTree.read, FileTree.read, hplace, hplace'] at hread
  simp only [bind, Except.bind] at hread
  generalize t.node? place = a at hread ⊢
  generalize t'.node? place = b at hread ⊢
  rcases a with - | - | ⟨c, executable⟩ <;> rcases b with - | - | ⟨c', executable'⟩
  case none.none => exact .none
  case some.directory.some.directory => exact .directory
  case some.file.some.file =>
    cases hread
    exact .file _ _ fun _ => rfl
  all_goals cases hread

/-- Trees that differ at the end of a path only are alike if the same is read there. -/
theorem Like.of_read (h : t.Like {place | t.locate p = .ok place} t')
    (hread : t.read p = t'.read p) : t.Like ∅ t' := by
  refine ⟨h.current, fun place => ?_⟩
  by_cases hplace : t.locate p = .ok place
  · exact likeNode_of_read hplace (h.locate p ▸ hplace) hread _
  · exact (h.node place).mono fun _ => hplace

/-! ### A file in one of two trees -/

/-- There may be a file at the end of a path in each of two trees, which have the directory that it
is in, and all else, in common. -/
structure Beside (p : Path) (t t' : FileTree) : Prop where
  current : t.current = t'.current
  file : ∃ place, (t.locate p = .ok place ∧ t.node? place ≠ some .directory) ∧
    (t'.locate p = .ok place ∧ t'.node? place ≠ some .directory) ∧
    ∀ other, place ≠ other → LikeNode True (t.node? other) (t'.node? other)
  parent : t.makeDirectories p.parent = (.ok (), t) ∧ t'.makeDirectories p.parent = (.ok (), t')

theorem Beside.of_read (h : t.Beside p t') (hread : t.read p = t'.read p) : t.Like ∅ t' := by
  obtain ⟨place, ⟨hplace, -⟩, ⟨hplace', -⟩, hothers⟩ := h.file
  refine ⟨h.current, fun other => ?_⟩
  by_cases heq : place = other
  · subst heq
    exact likeNode_of_read hplace hplace' hread _
  · exact (hothers other heq).mono fun _ => trivial

/-- When the same is stored at the end of the path, the trees are alike. -/
theorem Beside.write (h : t.Beside p t') (c : Content) :
    Coincide (Like ∅) (t.write p c) (t'.write p c) := by
  obtain ⟨place, ⟨hplace, hnode⟩, ⟨hplace', hnode'⟩, hothers⟩ := h.file
  rw [write_eq_ok.2 ⟨place, hplace, hnode, rfl⟩, write_eq_ok.2 ⟨place, hplace', hnode', rfl⟩]
  refine .ok ⟨h.current, fun other => ?_⟩
  rw [put, put, node?_putNode, node?_putNode]
  split
  · exact .file _ _ fun _ => rfl
  · rename_i hne
    exact (hothers other hne).mono fun _ => trivial

end FileTree

end BootImage.Host
