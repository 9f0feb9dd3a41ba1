import BootImage.Inspect.Description
import BootImage.Proofs.Bytes.Splicing
import BootImage.Proofs.Checks
import Mathlib.Data.List.Forall2
import Mathlib.Logic.Relation

/-!
# Walks through any image

A walk goes into each directory by the name of its entry, and does not look where it has been. What
an image says may be anything: an entry can be for the directory that it is in, or for one that it
was reached through, and its name can lead elsewhere or nowhere. A walk ends in spite of this, as it
goes down only so far, but it need not end well. It gives all entries just if each directory that it
can get to can be read and has no names that lead nowhere, and none of the ways down is too long.
Where directories run in a circle, there are ways down of any length.

## Main definitions

* `Disk.Leads`: a directory has an entry that leads to another.
* `Disk.Passable`, `Disk.Strays`: a directory through which a walk can go on, and one with a name
  that leads nowhere.
* `Disk.Descends`: a way down of a certain length.
* `Disk.circle`: an image whose root directory is in itself.

## Main results

* `Disk.ends_walkFrom`: how a walk ends, and why.
* `Disk.exists_walkFrom_iff`, `Disk.walkFrom_tooDeep`: when a walk gives entries, and when it goes
  down too far.
* `Disk.Descends.of_circle`: where directories run in a circle, ways down are of any length.
* `Disk.walk_of_ofContent`: how a walk through an image that can be opened ends.
-/

namespace BootImage

/-- A loop ends as its steps do. -/
theorem Ends.mapM {ε α β : Type} {P : ε → Prop} {Q : α → β → Prop} {f : α → Except ε β}
    {l : List α} (h : ∀ a ∈ l, Ends P (Q a) (f a)) :
    Ends P (fun bs => List.Forall₂ Q l bs) (l.mapM f) := by
  induction l with
  | nil => exact .nil
  | cons a l ih =>
    rw [List.forall_mem_cons] at h
    rw [List.mapM_cons]
    exact h.1.bind fun b hb => (ih h.2).bind fun bs hbs => .cons hb hbs

namespace Fat.Disk

open Relation (ReflTransGen TransGen)

variable {d : Disk} {c c' : Nat} {n : Nat}

/-! ### Ways through an image -/

/-- The directory at `c` has an entry for a directory, and the name of the entry leads from there to
the directory at `c'`. -/
def Leads (d : Disk) (c c' : Nat) : Prop :=
  ∃ es, d.entries c = .ok es ∧ ∃ e ∈ es, e.isDirectory = true ∧
    d.resolveFrom [] c (splitPath e.name) = .ok c'

/-- The entries of the directory at `c` can be read, and the name of each entry for a directory
leads to one. -/
def Passable (d : Disk) (c : Nat) : Prop :=
  ∃ es, d.entries c = .ok es ∧ ∀ e ∈ es, e.isDirectory = true →
    ∃ c', d.resolveFrom [] c (splitPath e.name) = .ok c'

/-- The directory at `c` has an entry for a directory whose name leads to none. -/
def Strays (d : Disk) (c : Nat) : Prop :=
  ∃ es, d.entries c = .ok es ∧ ∃ e ∈ es, e.isDirectory = true ∧
    ∃ cause, d.resolveFrom [] c (splitPath e.name) = .error cause ∧
      (cause.kind = .notFound ∨ cause.kind = .notDirectory)

/-- There is a way down from the directory at `c` through `n` entries for directories. -/
inductive Descends (d : Disk) : (n c : Nat) → Prop
  | here (c : Nat) : Descends d 0 c
  | down {n c c' : Nat} (h : d.Leads c c') (rest : Descends d n c') : Descends d (n + 1) c

theorem Strays.not_passable (h : d.Strays c) : ¬ d.Passable c := by
  rintro ⟨es, hes, hall⟩
  obtain ⟨es', hes', e, he, hkind, cause, hcause, -⟩ := h
  cases hes.symm.trans hes'
  obtain ⟨c', hc'⟩ := hall e he hkind
  cases hcause.symm.trans hc'

namespace Descends

theorem mono {m : Nat} (h : d.Descends m c) (hle : n ≤ m) : d.Descends n c := by
  induction h generalizing n with
  | here c =>
    rw [Nat.le_zero.1 hle]
    exact .here c
  | down hleads _ ih =>
    cases n with
    | zero => exact .here _
    | succ n => exact .down hleads (ih (Nat.le_of_succ_le_succ hle))

theorem of_reflTransGen (hway : ReflTransGen d.Leads c c') (h : d.Descends n c') :
    d.Descends n c := by
  induction hway using ReflTransGen.head_induction_on with
  | refl => exact h
  | head hleads _ ih => exact (Descends.down hleads ih).mono (Nat.le_succ n)

/-- From a directory that leads back to itself there are ways down of any length. -/
theorem of_circle (hcircle : TransGen d.Leads c c) (n : Nat) : d.Descends n c := by
  induction n with
  | zero => exact .here c
  | succ n ih =>
    obtain ⟨c', hleads, hback⟩ := TransGen.head'_iff.1 hcircle
    exact .down hleads (of_reflTransGen hback ih)

end Descends

/-! ### Names that are followed -/

theorem ends_entries (hopen : d.volume.closed = false) (c : Nat) :
    Ends (fun e : Error => e.kind = .format) (fun _ => True) (d.entries c) := by
  have hread : ∀ cs, d.readChain cs = .ok (cs.flatMap d.readCluster) := by
    intro cs
    rw [readChain, hopen, if_neg (by simp)]
  rw [entries, directory, Volume.chain]
  cases d.volume.chainFrom [] d.volume.clusters (c : Int).toNat with
  | none => rfl
  | some cs =>
    simp only [Bind.bind, Except.bind, hread]
    trivial

theorem ends_resolveFrom (hopen : d.volume.closed = false) (done names : List String) (c : Nat) :
    Ends (fun e : Error => e.kind = .format ∨ e.kind = .notFound ∨ e.kind = .notDirectory)
      (fun _ => True) (d.resolveFrom done c names) := by
  induction names generalizing done c with
  | nil => trivial
  | cons name names ih =>
    have hlookup : Ends (fun e : Error => e.kind = .format ∨ e.kind = .notFound ∨
        e.kind = .notDirectory) (fun _ => True) (d.lookup c name) := by
      rw [lookup]
      have hentries := ends_entries hopen c
      cases hes : d.entries c with
      | error e =>
        rw [hes] at hentries
        exact .inl hentries
      | ok es => trivial
    rw [resolveFrom]
    refine hlookup.bind fun found _ => ?_
    cases found with
    | none => exact .inr (.inl rfl)
    | some e =>
      by_cases hkind : e.isDirectory = true
      · simp only [hkind, if_true]
        exact ih _ _
      · simp only [hkind]
        exact .inr (.inr rfl)

/-- Where names lead, and the sort of failure if they lead nowhere, does not hang on the names by
which the start was reached. -/
theorem mapError_resolveFrom (done done' names : List String) (c : Nat) :
    (d.resolveFrom done c names).mapError Error.kind =
      (d.resolveFrom done' c names).mapError Error.kind := by
  induction names generalizing done done' c with
  | nil => rfl
  | cons name names ih =>
    rw [resolveFrom, resolveFrom]
    cases hlookup : d.lookup c name with
    | error e => rfl
    | ok found =>
      simp only [Bind.bind, Except.bind]
      cases found with
      | none => rfl
      | some e =>
        by_cases hkind : e.isDirectory = true
        · simp only [hkind, if_true]
          exact ih _ _ _
        · simp only [hkind]
          rfl

theorem resolveFrom_ok_iff (done : List String) {names : List String} :
    d.resolveFrom done c names = .ok c' ↔ d.resolveFrom [] c names = .ok c' := by
  have hok : ∀ x : Except Error Nat, x.mapError Error.kind = .ok c' ↔ x = .ok c' := by
    intro x
    cases x <;> simp [Except.mapError]
  rw [← hok, ← hok (d.resolveFrom [] c names), mapError_resolveFrom done []]

theorem exists_resolveFrom_error {done names : List String} {e : Error}
    (he : d.resolveFrom done c names = .error e) :
    ∃ e', d.resolveFrom [] c names = .error e' ∧ e'.kind = e.kind := by
  have h := mapError_resolveFrom (d := d) done [] names c
  rw [he] at h
  cases hnil : d.resolveFrom [] c names with
  | ok c' =>
    rw [hnil] at h
    cases h
  | error e' =>
    rw [hnil] at h
    exact ⟨e', rfl, (Except.error.inj h).symm⟩

/-! ### How a walk ends -/

/-- What a walk gives for one entry: the entry itself, and after it what it holds. -/
def walkEntry (d : Disk) (depth : Nat) (path : String) (done : List String) (c : Nat)
    (e : DirEntry) : Except Error (List (String × DirEntry)) := do
  if e.isDirectory then
    let inside ← d.resolveFrom done c (splitPath e.name)
    return (childPath path e.name, e) ::
      (← d.walkFrom depth (childPath path e.name) (done ++ splitPath e.name) inside)
  else return [(childPath path e.name, e)]

theorem walkFrom_succ (depth : Nat) (path : String) (done : List String) (c : Nat) :
    d.walkFrom (depth + 1) path done c =
      (d.entries c >>= fun es => es.mapM (d.walkEntry depth path done c)) >>=
        fun below => .ok below.flatten := by
  rw [walkFrom]
  cases d.entries c <;> rfl

/-- Why a walk that goes down `n` directories from the one at `c` stops without a result: there are
more, or a directory that it can get to cannot be read, or has a name that leads nowhere. -/
def Stops (d : Disk) (n c : Nat) (e : Error) : Prop :=
  (e = .tooDeep ∧ d.Descends n c) ∨
    ∃ c', ReflTransGen d.Leads c c' ∧
      (e.kind = .format ∧ ¬ d.Passable c' ∨
        (e.kind = .notFound ∨ e.kind = .notDirectory) ∧ d.Strays c')

/-- No way down is as long as `n`, and each directory that is found can be passed. -/
def Walkable (d : Disk) (n c : Nat) : Prop :=
  (∀ c', ReflTransGen d.Leads c c' → d.Passable c') ∧ ¬ d.Descends n c

theorem Stops.up {e : Error} (hleads : d.Leads c c') (h : d.Stops n c' e) :
    d.Stops (n + 1) c e := by
  rcases h with ⟨he, hdown⟩ | ⟨c'', hway, h⟩
  · exact .inl ⟨he, .down hleads hdown⟩
  · exact .inr ⟨c'', .head hleads hway, h⟩

theorem Walkable.up (hpassable : d.Passable c) (h : ∀ c', d.Leads c c' → d.Walkable n c') :
    d.Walkable (n + 1) c := by
  constructor
  · intro c'' hway
    rcases hway.cases_head with rfl | ⟨c', hleads, hrest⟩
    · exact hpassable
    · exact (h c' hleads).1 c'' hrest
  · rintro (_ | ⟨hleads, hdown⟩)
    exact (h _ hleads).2 hdown

theorem Stops.not_walkable {e : Error} (h : d.Stops n c e) : ¬ d.Walkable n c := by
  rintro ⟨hpassable, hdown⟩
  rcases h with ⟨-, h⟩ | ⟨c', hway, ⟨-, h⟩ | ⟨-, h⟩⟩
  · exact hdown h
  · exact h (hpassable c' hway)
  · exact h.not_passable (hpassable c' hway)

/-- A walk passes an entry just if it is no directory, or leads to one in which it can go on. -/
theorem ends_walkEntry (hopen : d.volume.closed = false) (path : String) (done : List String)
    {es : List DirEntry} (hes : d.entries c = .ok es) {e : DirEntry} (he : e ∈ es)
    (hinside : ∀ path done c', Ends (d.Stops n c') (fun _ => d.Walkable n c')
      (d.walkFrom n path done c')) :
    Ends (d.Stops (n + 1) c)
      (fun _ => e.isDirectory = true → ∃ c', d.resolveFrom [] c (splitPath e.name) = .ok c' ∧
        d.Walkable n c') (d.walkEntry n path done c e) := by
  rw [walkEntry]
  by_cases hkind : e.isDirectory = true
  · simp only [hkind, if_true]
    have hresolve := ends_resolveFrom hopen done (splitPath e.name) c
    cases hc' : d.resolveFrom done c (splitPath e.name) with
    | error cause =>
      rw [hc'] at hresolve
      obtain ⟨cause', hcause', hsame⟩ := exists_resolveFrom_error hc'
      refine .inr ⟨c, .refl, ?_⟩
      rcases hresolve with hformat | hmissing
      · refine .inl ⟨hformat, ?_⟩
        rintro ⟨es', hes', hall⟩
        cases hes.symm.trans hes'
        obtain ⟨c', hok⟩ := hall e he hkind
        cases hcause'.symm.trans hok
      · exact .inr ⟨hmissing, es, hes, e, he, hkind, cause', hcause', hsame ▸ hmissing⟩
    | ok c' =>
      have hok := (resolveFrom_ok_iff done).1 hc'
      have hleads : d.Leads c c' := ⟨es, hes, e, he, hkind, hok⟩
      have hinside' := hinside (childPath path e.name) (done ++ splitPath e.name) c'
      simp only [Bind.bind, Except.bind]
      cases hwalk : d.walkFrom n (childPath path e.name) (done ++ splitPath e.name) c' with
      | error cause =>
        rw [hwalk] at hinside'
        exact Stops.up hleads hinside'
      | ok ws =>
        rw [hwalk] at hinside'
        exact fun _ => ⟨c', hok, hinside'⟩
  · rw [if_neg hkind]
    exact fun hdirectory => absurd hdirectory hkind

/-- A walk gives entries just if it can go on everywhere, and it stops for one of the causes that
there are. The induction is on how far down it may go. -/
theorem ends_walkFrom (hopen : d.volume.closed = false) (path : String) (done : List String) :
    Ends (d.Stops n c) (fun _ => d.Walkable n c) (d.walkFrom n path done c) := by
  induction n generalizing path done c with
  | zero => exact .inl ⟨rfl, .here c⟩
  | succ n ih =>
    have hentries := ends_entries hopen c
    rw [walkFrom_succ]
    cases hes : d.entries c with
    | error e =>
      rw [hes] at hentries
      refine .inr ⟨c, .refl, .inl ⟨hentries, ?_⟩⟩
      rintro ⟨es, hes', -⟩
      cases hes.symm.trans hes'
    | ok es =>
      have hentry := fun e (he : e ∈ es) =>
        ends_walkEntry hopen path done hes he fun path done _ => ih path done
      refine Ends.bind (Ends.mapM hentry) fun below hbelow => ?_
      have hall : ∀ e ∈ es, e.isDirectory = true →
          ∃ c', d.resolveFrom [] c (splitPath e.name) = .ok c' ∧ d.Walkable n c' := by
        intro e he
        obtain ⟨i, hi, rfl⟩ := List.getElem_of_mem he
        exact hbelow.get hi (hbelow.length_eq ▸ hi)
      refine Walkable.up ⟨es, hes, fun e he hkind => ?_⟩ ?_
      · obtain ⟨c', hc', -⟩ := hall e he hkind
        exact ⟨c', hc'⟩
      · rintro c' ⟨es', hes', e, he, hkind, hc'⟩
        cases hes.symm.trans hes'
        obtain ⟨c'', hc'', hwalkable⟩ := hall e he hkind
        cases hc'.symm.trans hc''
        exact hwalkable

/-- A walk gives entries just if it can go on everywhere. -/
theorem exists_walkFrom_iff (hopen : d.volume.closed = false) (path : String)
    (done : List String) : (∃ ws, d.walkFrom n path done c = .ok ws) ↔ d.Walkable n c := by
  have hends := ends_walkFrom hopen (n := n) (c := c) path done
  constructor
  · rintro ⟨ws, hws⟩
    rw [hws] at hends
    exact hends
  · intro hwalkable
    cases hwalk : d.walkFrom n path done c with
    | ok ws => exact ⟨ws, rfl⟩
    | error e =>
      rw [hwalk] at hends
      exact absurd hwalkable (Stops.not_walkable hends)

/-- A way down that is too long makes a walk fail, if nothing else does. -/
theorem walkFrom_tooDeep (hopen : d.volume.closed = false) (path : String) (done : List String)
    (hpassable : ∀ c', ReflTransGen d.Leads c c' → d.Passable c') (hdown : d.Descends n c) :
    d.walkFrom n path done c = .error .tooDeep := by
  have hends := ends_walkFrom hopen (n := n) (c := c) path done
  cases hwalk : d.walkFrom n path done c with
  | ok ws =>
    rw [hwalk] at hends
    exact absurd hdown hends.2
  | error e =>
    rw [hwalk] at hends
    rcases hends with ⟨rfl, -⟩ | ⟨c', hway, ⟨-, h⟩ | ⟨-, h⟩⟩
    · rfl
    · exact absurd (hpassable c' hway) h
    · exact absurd (hpassable c' hway) h.not_passable

/-- As long as no way down is too long and no name leads nowhere, only a directory that cannot be
read makes a walk fail. -/
theorem ends_walkFrom_format (hopen : d.volume.closed = false) (path : String)
    (done : List String) (hdown : ¬ d.Descends n c)
    (hstrays : ∀ c', ReflTransGen d.Leads c c' → ¬ d.Strays c') :
    Ends (fun e : Error => e.kind = .format) (fun _ => True) (d.walkFrom n path done c) := by
  have hends := ends_walkFrom hopen (n := n) (c := c) path done
  cases hwalk : d.walkFrom n path done c with
  | ok ws => trivial
  | error e =>
    rw [hwalk] at hends
    rcases hends with ⟨-, h⟩ | ⟨c', hway, ⟨hformat, -⟩ | ⟨-, h⟩⟩
    · exact absurd h hdown
    · exact hformat
    · exact absurd h (hstrays c' hway)

/-! ### Directories in a circle -/

/-- A boot sector, a table and one cluster. -/
def circleGeometry : Geometry :=
  { totalSectors := 3, tableSectors := 1, sectorsPerCluster := 1, reservedSectors := 1,
    tableCount := 1, rootCluster := 2, bytesPerSector := 512 }

/-- A small image in which the root directory has an entry for itself. -/
def circle : Bytes :=
  bootSector circleGeometry (asciiBytes "CIRCLE     ".toList) 0 ++ Bytes.resize newTableStart 512 ++
    Bytes.resize (shortSlot (asciiBytes (elevenChars ['A'] [])) directoryAttribute 0 0 0) 512

/-- The volume in the small image. -/
def circleVolume : Volume where
  image := "fs.img"
  geometry := circleGeometry
  table := .ofBytes (Bytes.resize newTableStart 512)
  free := 0
  hint := 2
  readOnly := true
  closed := false

theorem ofContent_circle :
    Volume.ofContent "fs.img" (Content.ofBytes circle) true = .ok circleVolume := by
  have hgeometry : Geometry.ofBootSector (circle.slice 0 512) "fs.img" = .ok circleGeometry := by
    decide +kernel
  have htable : circle.slice (circleGeometry.tableOffset 0)
      (circleGeometry.tableSectors * circleGeometry.bytesPerSector) =
        Bytes.resize newTableStart 512 := by
    decide +kernel
  have hfree : Volume.countFree circleVolume.table circleGeometry.clusterCount.toNat = 0 := by
    decide +kernel
  rw [Volume.ofContent, Content.read_ofBytes, hgeometry]
  simp only [Bind.bind, Except.bind, Content.read_ofBytes, htable]
  rw [if_neg (by decide), if_pos (by decide +kernel)]
  exact congrArg (fun n => Except.ok { circleVolume with free := n }) hfree

theorem entries_circle : entries ⟨circleVolume, Content.ofBytes circle⟩ 2 =
    .ok [⟨"A", asciiBytes (elevenChars ['A'] []), directoryAttribute, 0, 0, [0]⟩] := by
  have hchain : circleVolume.chain (2 : Nat) = .ok [2] := by decide +kernel
  have hread : readChain ⟨circleVolume, Content.ofBytes circle⟩ [2] =
      .ok (circle.slice 1024 512) := by
    rw [readChain, if_neg (by simp [circleVolume]), List.flatMap_singleton, readCluster,
      Content.read_ofBytes]
    rfl
  rw [entries, directory, hchain]
  simp only [Bind.bind, Except.bind, hread]
  decide +kernel

/-! ### Images that can be opened -/

theorem closed_of_ofContent {image : String} {content : Content} {readOnly : Bool} {v : Volume}
    (h : Volume.ofContent image content readOnly = .ok v) : v.closed = false := by
  rw [Volume.ofContent] at h
  obtain ⟨geometry, -, h⟩ := ok_of_bind h
  obtain ⟨-, h⟩ := ok_of_if h
  obtain ⟨-, h⟩ := ok_of_unless h
  cases h
  rfl

theorem walk_root (d : Disk) :
    d.walk "/" = d.walkFrom maxDepth "/" [] d.volume.geometry.rootCluster := by
  have hnames : splitPath "/" = [] := by decide
  have hstart : ∀ f : Nat → Except Error (List (String × DirEntry)),
      (d.resolve [] >>= f) = f d.volume.geometry.rootCluster := fun f => rfl
  rw [walk, hnames, hstart]

/-- The lines about an image fail to come just if a walk through it fails, and for the same
cause. -/
theorem describeContent_error_iff {image : String} {content : Content} {v : Volume}
    (h : Volume.ofContent image content true = .ok v) (e : Error) :
    Inspect.describeContent image content = .error e ↔ walk ⟨v, content⟩ "/" = .error e := by
  obtain ⟨geometry, hgeometry, -⟩ := ok_of_bind h
  rw [Inspect.describeContent, hgeometry]
  simp only [Bind.bind, Except.bind, h]
  cases walk ⟨v, content⟩ "/" <;> simp [Pure.pure, Except.pure]

/-- How a walk from the root ends, for any image that can be opened. It gives entries, or fails
because the image is none of the format, as long as no way down is longer than a walk can go and no
directory that is found has a name that leads nowhere. What these two conditions leave out is told
as well: the walk gives entries just if each directory that is found can be passed and no way down
is too long; a way down that is too long makes it fail if nothing else does; and where directories
run in a circle, there is such a way. The description of an image fails just where the walk does. -/
theorem walk_of_ofContent {image : String} {content : Content} {readOnly : Bool} {v : Volume}
    (h : Volume.ofContent image content readOnly = .ok v) :
    let d : Disk := ⟨v, content⟩
    let root := v.geometry.rootCluster
    (¬ d.Descends maxDepth root → (∀ c, ReflTransGen d.Leads root c → ¬ d.Strays c) →
      Ends (fun e : Error => e.kind = .format) (fun _ => True) (d.walk "/")) ∧
    ((∃ ws, d.walk "/" = .ok ws) ↔
      (∀ c, ReflTransGen d.Leads root c → d.Passable c) ∧ ¬ d.Descends maxDepth root) ∧
    ((∀ c, ReflTransGen d.Leads root c → d.Passable c) → d.Descends maxDepth root →
      d.walk "/" = .error .tooDeep) ∧
    (∀ c, ReflTransGen d.Leads root c → TransGen d.Leads c c → d.Descends maxDepth root) ∧
    (readOnly = true →
      ∀ e, Inspect.describeContent image content = .error e ↔ d.walk "/" = .error e) := by
  intro d root
  have hopen : d.volume.closed = false := closed_of_ofContent h
  rw [walk_root]
  refine ⟨ends_walkFrom_format hopen _ _, exists_walkFrom_iff hopen _ _, walkFrom_tooDeep hopen _ _,
    fun c hway hcircle => .of_reflTransGen hway (.of_circle hcircle _), fun hreadOnly e => ?_⟩
  subst hreadOnly
  rw [describeContent_error_iff h, ← walk_root]

/-- The walk through an image whose root directory has an entry for itself fails, though nothing is
wrong with the names or with a chain, and so does its description. -/
theorem exists_walk_tooDeep :
    Volume.ofContent "fs.img" (Content.ofBytes circle) true = .ok circleVolume ∧
      walk ⟨circleVolume, Content.ofBytes circle⟩ "/" = .error .tooDeep ∧
      Inspect.describeContent "fs.img" (Content.ofBytes circle) = .error .tooDeep := by
  have hnames : splitPath "A" = ["A"] := by decide
  have hlookup : lookup ⟨circleVolume, Content.ofBytes circle⟩ 2 "A" =
      .ok (some ⟨"A", asciiBytes (elevenChars ['A'] []), directoryAttribute, 0, 0, [0]⟩) := by
    rw [lookup, entries_circle]
    decide +kernel
  have hself : resolveFrom ⟨circleVolume, Content.ofBytes circle⟩ [] 2 (splitPath "A") = .ok 2 := by
    rw [hnames, resolveFrom, hlookup]
    rfl
  have hleads : Leads ⟨circleVolume, Content.ofBytes circle⟩ 2 2 :=
    ⟨_, entries_circle, _, List.mem_singleton_self _, by decide, hself⟩
  have honly : ∀ c, ReflTransGen (Leads ⟨circleVolume, Content.ofBytes circle⟩) 2 c → c = 2 := by
    intro c hway
    induction hway with
    | refl => rfl
    | tail _ hstep ih =>
      subst ih
      obtain ⟨es, hes, e, he, -, hc⟩ := hstep
      cases entries_circle.symm.trans hes
      rw [List.mem_singleton.1 he, hself] at hc
      exact (Except.ok.inj hc).symm
  have hpassable : ∀ c, ReflTransGen (Leads ⟨circleVolume, Content.ofBytes circle⟩) 2 c →
      Passable ⟨circleVolume, Content.ofBytes circle⟩ c := by
    intro c hway
    rw [honly c hway]
    refine ⟨_, entries_circle, fun e he _ => ⟨2, ?_⟩⟩
    rw [List.mem_singleton.1 he]
    exact hself
  obtain ⟨-, -, hdeep, hcircle, hdescription⟩ := walk_of_ofContent ofContent_circle
  have hwalk := hdeep hpassable (hcircle 2 .refl (.single hleads))
  exact ⟨ofContent_circle, hwalk, (hdescription rfl _).2 hwalk⟩

end Fat.Disk

end BootImage
