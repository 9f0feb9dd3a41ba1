import BootImage.Proofs.Fat.Capacity
import BootImage.Proofs.Session.Failing

/-!
# What a path is blamed for

Two failures of a write say that a path has no name that can be written: one blames the name, and
the other is that of writing to the root directory, which has none. They come from two checks only.
So with a valid name at its end a path is never blamed, whatever else is wrong with the volume, the
directories on the way or the source.

## Main definitions

* `Error.BlamesPath`: an error that says that a path has no name that can be written.
* `Error.LacksRoom`: an error that is not for the name itself.

## Main results

* `ends_encodeEntry`: why an entry with a valid name cannot be stored.
* `Edit.sparesPath_writeFile`, `Edit.sparesPath_writePoints`: a write to a path that ends in a valid
  name does not blame the path.
-/

namespace BootImage.Fat

/-- The error says that a path has no name that can be written: the name is not valid, or the path
is that of the root directory. -/
def Error.BlamesPath : Error → Prop
  | badName _ => True
  | isDirectory _ path => path = ""
  | _ => False

/-- The error says that the aliases of a name are used up, or that a field or a byte of a slot
cannot hold its number. -/
def Error.LacksRoom (name : String) (e : Error) : Prop :=
  e = .noAlias name ∨ e = .byteRange ∨ e = .fieldRange

/-- Where a path has names, they are not empty when they are put together. -/
theorem pathText_splitPath_ne_empty {path : String} (h : splitPath path ≠ []) :
    Disk.pathText (splitPath path) ≠ "" := by
  intro hempty
  have hnames := splitPath_pathText fun name (hmem : name ∈ splitPath path) =>
    isPathName_of_mem hmem
  rw [hempty] at hnames
  exact h (hnames.symm.trans (by decide))

/-- What is looked up gives a result, or fails without blaming a path. -/
def Spares {α : Type} (x : Except Error α) : Prop :=
  Ends (fun e => ¬ e.BlamesPath) (fun _ => True) x

theorem Spares.bind {α β : Type} {x : Except Error α} {f : α → Except Error β} (hx : Spares x)
    (hf : ∀ a, Spares (f a)) : Spares (x >>= f) :=
  Ends.bind hx fun a _ => hf a

/-! ### Looking something up -/

section

variable {d : Disk} {v : Volume}

theorem spares_checkOpen : Spares v.checkOpen :=
  .of_if not_false fun _ => .of_if not_false fun _ => trivial

theorem spares_chain (start : Int) : Spares (v.chain start) := by
  rw [Volume.chain]
  cases v.chainFrom [] v.clusters start.toNat with
  | none => exact not_false
  | some clusters => exact trivial

theorem spares_directory (cluster : Nat) : Spares (d.directory cluster) := by
  refine (spares_chain _).bind fun clusters => Spares.bind ?_ fun _ => trivial
  rw [Disk.readChain]
  split
  · exact not_false
  · exact trivial

theorem spares_entries (cluster : Nat) : Spares (d.entries cluster) :=
  Spares.bind (spares_directory cluster) fun _ => trivial

theorem spares_lookup (cluster : Nat) (name : String) : Spares (d.lookup cluster name) :=
  Spares.bind (spares_entries cluster) fun _ => trivial

theorem spares_resolveFrom (done : List String) (cluster : Nat) (names : List String) :
    Spares (d.resolveFrom done cluster names) := by
  induction names generalizing done cluster with
  | nil => exact trivial
  | cons name names ih =>
    rw [Disk.resolveFrom]
    refine (spares_lookup cluster name).bind fun found => ?_
    cases found with
    | none => exact not_false
    | some e =>
      simp only
      split
      · exact ih _ _
      · exact not_false

theorem spares_lookupPoints (cluster : Nat) (name : List Text.CodePoint) :
    Spares (d.lookupPoints cluster name) := by
  rw [Disk.lookupPoints]
  cases Text.ofPoints? name with
  | some name => exact spares_lookup cluster name
  | none => exact Spares.bind (spares_entries cluster) fun _ => trivial

theorem spares_resolvePointsFrom (done : List String) (cluster : Nat)
    (names : List (List Text.CodePoint)) : Spares (d.resolvePointsFrom done cluster names) := by
  induction names generalizing done cluster with
  | nil => exact trivial
  | cons name names ih =>
    rw [Disk.resolvePointsFrom]
    refine (spares_lookupPoints cluster name).bind fun found => ?_
    cases found with
    | none => exact not_false
    | some e =>
      simp only
      split
      · exact ih _ _
      · exact not_false

theorem spares_allocate (count : Int) : Spares (v.allocate count) := by
  rw [Volume.allocate]
  split
  · exact trivial
  · exact .of_if not_false fun _ => .of_if not_false fun _ => trivial

theorem spares_release (start : Int) : Spares (v.release start) :=
  (spares_chain start).bind fun _ => trivial

end

/-! ### Encoding an entry -/

/-- An entry with a valid name cannot be stored only where the aliases are used up, or where a
number that goes with it has no room. -/
theorem ends_encodeEntry {name : String} (hvalid : isValidName name = true) (taken : Bytes → Bool)
    (attributes cluster size : Int) :
    Ends (Error.LacksRoom name) (fun _ => True)
      (encodeEntry name taken attributes cluster size) := by
  have hslot : ∀ (short : Bytes) (caseBits : Int), Ends (Error.LacksRoom name) (fun _ => True)
      (shortSlot? short attributes cluster size caseBits) := fun short caseBits =>
    .of_unless (.inr (.inl rfl)) fun _ => .of_unless (.inr (.inr rfl)) fun _ => trivial
  have halias : Ends (Error.LacksRoom name) (fun _ => True) (shortAlias name taken) := by
    rcases shortAlias_cases name taken with ⟨herror, -⟩ | ⟨n, -, -, hok, -⟩
    · rw [herror]
      exact .inl rfl
    · rw [hok]
      exact trivial
  have hlong : Ends (Error.LacksRoom name) (fun _ => True) (do
      let short ← shortAlias name taken
      return longSlots name short ++ [← shortSlot? short attributes cluster size 0]) :=
    halias.bind fun short _ => (hslot short 0).bind fun slot _ => trivial
  rw [encodeEntry, eq_of_unless hvalid]
  cases shortForm name with
  | none => exact hlong
  | some form =>
    simp only
    split
    · exact hlong
    · exact (hslot _ _).bind fun _ _ => trivial

theorem spares_encodeEntry {name : String} (hvalid : isValidName name = true)
    (taken : Bytes → Bool) (attributes cluster size : Int) :
    Spares (encodeEntry name taken attributes cluster size) := by
  have hends := ends_encodeEntry hvalid taken attributes cluster size
  rw [Spares]
  cases hencode : encodeEntry name taken attributes cluster size with
  | ok slots => exact trivial
  | error e =>
    rw [hencode] at hends
    obtain rfl | rfl | rfl := hends
    all_goals exact not_false

namespace Edit

variable {α : Type} {name : String}

/-- A change gives a result, or fails without blaming a path. -/
abbrev SparesPath (x : Edit α) : Prop :=
  FailsAs (fun e => ¬ e.BlamesPath) x

theorem sparesPath_query {f : Disk → Except Error α} (h : ∀ d, Spares (f d)) :
    SparesPath (query f) :=
  h

theorem sparesPath_onVolume {f : Volume → Except Error (α × Volume)} (h : ∀ v, Spares (f v)) :
    SparesPath (onVolume f) :=
  (sparesPath_query fun d => h d.volume).bind fun _ => (failsAs_modify _).bind fun _ =>
    failsAs_pure _

theorem sparesPath_allocate (count : Int) : SparesPath (allocate count) :=
  sparesPath_onVolume fun _ => spares_allocate count

theorem sparesPath_release (start : Int) : SparesPath (release start) :=
  sparesPath_onVolume fun _ => (spares_release start).bind fun _ => trivial

theorem sparesPath_writeSlots (clusters : List Nat) (number : Nat) (slots : List Bytes) :
    SparesPath (writeSlots clusters number slots) := by
  induction slots generalizing number with
  | nil => exact failsAs_pure _
  | cons slot slots ih => exact FailsAs.bind (failsAs_modify _) fun _ => ih (number + 1)

theorem sparesPath_findPlace (count limit : Nat) (clusters : List Nat) (data : Bytes) :
    SparesPath (findPlace count limit clusters data) := by
  induction limit generalizing clusters data with
  | zero => exact failsAs_pure _
  | succ limit ih =>
    rw [findPlace]
    split
    · exact failsAs_pure _
    · refine (sparesPath_allocate 1).bind fun added => ?_
      split
      · refine FailsAs.bind (failsAs_modify _) fun _ => (failsAs_modify _).bind fun _ => ?_
        exact failsAs_get.bind fun _ => ih _ _
      · exact failsAs_throw not_false

theorem sparesPath_addEntry (directory : Nat) (hvalid : isValidName name = true)
    (attributes : UInt8) (cluster : Nat) (size : Int) :
    SparesPath (addEntry directory name attributes cluster size) := by
  refine (sparesPath_query fun d => spares_directory directory).bind fun found => ?_
  refine (sparesPath_query fun _ => spares_encodeEntry hvalid _ _ _ _).bind fun slots => ?_
  exact (sparesPath_findPlace _ _ _ _).bind fun _ => sparesPath_writeSlots _ _ _

theorem sparesPath_neededGrowth (directory : Nat) (hvalid : isValidName name = true)
    (attributes : UInt8) (replaced : Option DirEntry) :
    SparesPath (neededGrowth directory name attributes replaced) := by
  refine (sparesPath_query fun d => spares_directory directory).bind fun found => ?_
  refine (sparesPath_query fun _ => spares_encodeEntry hvalid _ _ _ _).bind fun slots => ?_
  exact failsAs_get.bind fun _ => failsAs_pure _

theorem sparesPath_removeEntry (directory : Nat) (e : DirEntry) :
    SparesPath (removeEntry directory e) := by
  refine (sparesPath_query fun d => spares_chain _).bind fun clusters => ?_
  have hmark : SparesPath (each e.slots fun number => writeSlot clusters number [deletedMark]) :=
    .each (fun _ => failsAs_modify _) _
  refine hmark.bind fun _ => ?_
  split
  · exact sparesPath_release _
  · exact failsAs_pure _

theorem sparesPath_copyClusters (path : String) (source : Content) (position remaining : Nat)
    (clusters : List Nat) : SparesPath (copyClusters path source position remaining clusters) := by
  induction clusters generalizing position remaining with
  | nil => exact failsAs_pure _
  | cons cluster clusters ih =>
    refine failsAs_get.bind fun d => .of_if not_false fun _ => ?_
    exact FailsAs.bind (failsAs_modify _) fun _ => ih _ _

theorem sparesPath_putFile (parent : Nat) (hvalid : isValidName name = true) (path : String)
    (source : Content) (size needed : Int) (old : Option DirEntry) (clusterSize reclaimed : Nat) :
    SparesPath (putFile parent name path source size needed old clusterSize reclaimed) := by
  have hstore : SparesPath (storeFile parent name path source size needed) :=
    (sparesPath_allocate needed).bind fun clusters =>
      (sparesPath_copyClusters _ _ _ _ _).bind fun _ => sparesPath_addEntry _ hvalid _ _ _
  refine (sparesPath_neededGrowth _ hvalid _ _).bind fun grow => failsAs_get.bind fun d => ?_
  refine .of_if not_false fun _ => ?_
  cases old with
  | none => exact hstore
  | some e => exact (sparesPath_removeEntry parent e).bind fun _ => hstore

theorem sparesPath_putNamed (parent : Nat) (hvalid : isValidName name = true) {path : String}
    (hpath : splitPath path ≠ []) (image : String) (source : Content) (size : Int)
    (clusterSize : Nat) :
    SparesPath (putNamed parent name path image source size clusterSize) := by
  have htext := pathText_splitPath_ne_empty hpath
  generalize hnames : Disk.pathText (splitPath path) = text at htext
  refine (sparesPath_query fun d => spares_lookup parent name).bind fun old => ?_
  cases old with
  | none => exact sparesPath_putFile _ hvalid _ _ _ _ _ _ _
  | some e =>
    rw [hnames]
    refine .of_if htext fun _ => ?_
    split
    · exact (sparesPath_query fun d => spares_chain _).bind fun _ =>
        sparesPath_putFile _ hvalid _ _ _ _ _ _ _
    · exact sparesPath_putFile _ hvalid _ _ _ _ _ _ _

/-- A write to a path that ends in a valid name does not blame the path. -/
theorem sparesPath_writeFile {path : String} (hname : (splitPath path).getLast? = some name)
    (hvalid : isValidName name = true) (source : Content) (size : Int) :
    SparesPath (writeFile path source size) := by
  have hpath : splitPath path ≠ [] := by
    rintro hnil
    rw [hnil] at hname
    cases hname
  rw [writeFile]
  -- The quotient has too many digits to be looked at.
  generalize maxQuotient = quotient
  refine (sparesPath_query fun d => spares_checkOpen).bind fun _ => failsAs_get.bind fun d => ?_
  simp only [hname]
  refine .of_if not_false fun _ => ?_
  refine (sparesPath_query fun d => spares_resolveFrom [] _ _).bind fun parent => ?_
  refine failsAs_get.bind fun d => .of_if not_false fun _ => ?_
  exact sparesPath_putNamed parent hvalid hpath _ _ _ _

/-- Nor does a write to a path that is given as code points, whether or not it is text. -/
theorem sparesPath_writePoints {path : List Text.CodePoint}
    (hname : (splitPoints path).getLast? = some (Text.points name))
    (hvalid : isValidName name = true) (source : Content) :
    SparesPath (writePoints path source) := by
  rw [writePoints]
  cases hpath : Text.ofPoints? path with
  | some text =>
    rw [Text.ofPoints?_eq_some_iff.1 hpath, splitPoints_points, List.getLast?_map,
      Option.map_eq_some_iff] at hname
    obtain ⟨last, hlast, hsame⟩ := hname
    rw [Text.points_inj.1 hsame] at hlast
    exact sparesPath_writeFile hlast hvalid source _
  | none =>
    refine (sparesPath_query fun d => spares_checkOpen).bind fun _ => .of_if not_false fun _ => ?_
    refine (sparesPath_query fun d => spares_resolvePointsFrom [] _ _).bind fun parent => ?_
    exact (sparesPath_query fun d => spares_lookupPoints _ _).bind fun _ => failsAs_throw not_false

end Edit

end BootImage.Fat
