import BootImage.Proofs.Fat.FailedWrites
import BootImage.Proofs.Fat.Ownership

/-!
# Exact checks

Before anything is changed it is checked that enough clusters are free. The count that is compared
is exact: what is free after a change is less by just that many clusters, and the chain of the
directory is longer by just those that were counted for it. So no step that follows a passed check
can fail, and where the check fails nothing has happened.

Directories are made one after the other. Each of them has a check of its own, so that making a path
stops at the first name that is refused, and what it leaves is what making the names before that one
leaves.

## Main definitions

* `Folder.Without`: a folder without the record that a file is to replace.
* `Disk.Counts`: what is known of a file when the check is made.
* `Disk.ExactChecks`: the checks are exact.

## Main results

* `Disk.Holds.exists_counts`: when it is known, and by how much a directory grows at most.
* `Edit.makeFrom_failed`: where making a path stops.
* `Disk.Fresh.exactChecks_after`: the checks are exact in every state that calls lead to.
-/

namespace BootImage.Fat

/-! ### Paths put together -/

/-- A name that can stand between the slashes of a path. -/
def IsPathName (name : String) : Prop :=
  name ≠ "" ∧ name ≠ "." ∧ ∀ c ∈ name.toList, (c = '/' || c = '\\') = false

theorem isPathName_of_mem {path name : String} (h : name ∈ splitPath path) : IsPathName name := by
  obtain ⟨hmem, hkeep⟩ := List.mem_filter.1 h
  obtain ⟨piece, hpiece, rfl⟩ := List.mem_map.1 hmem
  obtain ⟨hempty, hdot⟩ := (Bool.and_eq_true _ _).mp hkeep
  refine ⟨by simpa using hempty, by simpa using hdot, fun c hc => ?_⟩
  rw [String.toList_ofList] at hc
  have hplain := fun c => Text.not_mem_of_mem_pieces (c := c) hpiece
  exact hplain c hc

/-- A valid name can stand between the slashes of a path. -/
theorem isPathName_of_isValidName {name : String} (h : isValidName name = true) :
    IsPathName name := by
  simp only [isValidName, Bool.and_eq_true, decide_eq_true_eq, List.all_eq_true] at h
  obtain ⟨⟨⟨⟨hempty, hdot⟩, -⟩, -⟩, hplain⟩ := h
  refine ⟨hempty, hdot, fun c hc => ?_⟩
  have hbad := (hplain c hc).2
  rw [Bool.or_eq_false_iff, decide_eq_false_iff_not, decide_eq_false_iff_not]
  constructor
  · rintro rfl
    exact absurd hbad (by decide)
  · rintro rfl
    exact absurd hbad (by decide)

theorem splitPath_name {name : String} (h : IsPathName name) : splitPath name = [name] := by
  obtain ⟨hempty, hdot, hplain⟩ := h
  rw [splitPath, Text.pieces_of_not_mem hplain, List.map_singleton, String.ofList_toList]
  simp [hempty, hdot]

/-- The names before and after a slash. -/
theorem splitPath_append (s t : List Char) : splitPath (String.ofList (s ++ '/' :: t)) =
    splitPath (String.ofList s) ++ splitPath (String.ofList t) := by
  simp only [splitPath, String.toList_ofList]
  rw [Text.pieces_append (by decide), List.map_append, List.filter_append]

/-- The names in a path that is text, given as code points. -/
theorem splitPoints_points (path : String) :
    splitPoints (Text.points path) = (splitPath path).map Text.points := by
  have hempty : ∀ piece : List Char, piece.map Text.CodePoint.char = [] ↔
      String.ofList piece = "" := fun piece => by
    rw [List.map_eq_nil_iff, ← String.toList_inj, String.toList_ofList]
    rfl
  have hdot : ∀ piece : List Char, piece.map Text.CodePoint.char = Text.points "." ↔
      String.ofList piece = "." := fun piece => by
    rw [← Text.points_ofList, Text.points_inj]
  have hpath : Text.points path = path.toList.map .char := rfl
  rw [splitPoints, splitPath, hpath, Text.pieces_map, List.filter_map, List.filter_map,
    List.map_map]
  simp [Function.comp_def, hempty, hdot, Text.points_ofList]

theorem splitPoints_append (s t : List Text.CodePoint) :
    splitPoints (s ++ .char '/' :: t) = splitPoints s ++ splitPoints t := by
  rw [splitPoints, Text.pieces_append (by decide), List.filter_append]
  rfl

/-- The names of a path that was put together are those that it was put together from. -/
theorem splitPath_pathText {names : List String} (h : ∀ name ∈ names, IsPathName name) :
    splitPath (Disk.pathText names) = names := by
  induction names with
  | nil => decide
  | cons name names ih =>
    rw [List.forall_mem_cons] at h
    cases names with
    | nil =>
      rw [Disk.pathText, String.intercalate_singleton]
      exact splitPath_name h.1
    | cons next names =>
      have hjoin : Disk.pathText (name :: next :: names) =
          String.ofList (name.toList ++ '/' :: (Disk.pathText (next :: names)).toList) := by
        rw [← String.toList_inj, String.toList_ofList, Disk.pathText, Disk.pathText,
          String.toList_intercalate, String.toList_intercalate, List.map_cons, List.map_cons,
          List.intercalate_cons_cons]
        simp
      rw [hjoin, splitPath_append, String.ofList_toList, String.ofList_toList, splitPath_name h.1,
        ih h.2]
      rfl

/-! ### Making a path that is refused -/

namespace Edit

variable {d d' : Disk} {G : Catalog} {K : Owner → List Nat} {loose : List Nat} {dir : Nat}
  {f : Folder}

/-- Where making directories fails, those before the one that is refused have been made, and nothing
else has happened: what is refused is the name of a file, or a directory that cannot be made. -/
theorem makeFrom_failed (h : d.Holds G K loose) (hopen : d.volume.closed = false)
    (hf : G dir = some f) (names done : List String) {e : Error}
    (hrun : (makeFrom done dir names).on d = (.error e, d')) :
    ∃ before name after last, names = before ++ name :: after ∧
      (makeFrom done dir before).on d = (.ok last, d') ∧
      ((∃ x, d'.lookup last name = .ok (some x) ∧ x.isDirectory = false ∧
          e = .notDirectory d'.volume.image (Disk.pathText (done ++ before ++ [name]))) ∨
        d'.lookup last name = .ok none ∧
          (makeChild last (done ++ before ++ [name]) name).on d' = (.error e, d')) := by
  induction names generalizing d G K dir f done with
  | nil =>
    rw [makeFrom, on_pure] at hrun
    cases hrun
  | cons name names ih =>
    have hlookup := h.lookup_eq hopen hf name
    cases hfind : f.find name with
    | none =>
      rw [hfind, Option.map_none] at hlookup
      rw [makeFrom_create hlookup] at hrun
      have hrefused : ∀ e', (makeChild dir (done ++ [name]) name).on d = (.error e', d) →
          e' = e ∧ d = d' := by
        intro e' herror
        rw [on_bind_error _ herror] at hrun
        cases hrun
        exact ⟨rfl, rfl⟩
      have hfirst : ∀ e', (makeChild dir (done ++ [name]) name).on d = (.error e', d) →
          (makeChild dir (done ++ [] ++ [name]) name).on d = (.error e', d) := by
        intro e' herror
        rwa [List.append_nil]
      rcases makeChild_on h hopen hf (done ++ [name]) name with
        ⟨e', -, herror⟩ | ⟨s, grow, -, -, ⟨-, herror⟩ |
          ⟨d₁, K₁, n, f', c, hmade, -, -, hholds, halike, -, -⟩⟩
      · obtain ⟨rfl, rfl⟩ := hrefused _ herror
        exact ⟨[], name, names, dir, rfl, on_pure dir d, .inr ⟨hlookup, hfirst _ herror⟩⟩
      · obtain ⟨rfl, rfl⟩ := hrefused _ herror
        exact ⟨[], name, names, dir, rfl, on_pure dir d, .inr ⟨hlookup, hfirst _ herror⟩⟩
      · have hc : G.withFolder dir (d.upFrom dir) f' (.folder c) c =
            some ⟨some (c, d.upFrom dir), []⟩ := if_pos rfl
        rw [on_bind_ok _ hmade] at hrun
        obtain ⟨before, name', after, last, rfl, hbefore, hwhy⟩ :=
          ih hholds (halike.closed.trans hopen) hc (done ++ [name]) hrun
        refine ⟨name :: before, name', after, last, rfl, (makeFrom_create hlookup).trans
          ((on_bind_ok _ hmade).trans hbefore), ?_⟩
        rwa [List.append_cons done]
    | some x =>
      obtain ⟨n, r⟩ := x
      rw [hfind, Option.map_some] at hlookup
      have hkind := r.isDirectory_entry n
      cases hfolder : r.body.isFolder with
      | true =>
        obtain ⟨htarget, g, hg⟩ := h.target_eq hf (Folder.mem_of_find hfind) hfolder
        rw [makeFrom_enter hlookup (hkind.trans hfolder), htarget] at hrun
        obtain ⟨before, name', after, last, rfl, hbefore, hwhy⟩ :=
          ih h hopen hg (done ++ [name]) hrun
        rw [← htarget] at hbefore
        refine ⟨name :: before, name', after, last, rfl,
          (makeFrom_enter hlookup (hkind.trans hfolder)).trans hbefore, ?_⟩
        rwa [List.append_cons done]
      | false =>
        rw [makeFrom_blocked hlookup (hkind.trans hfolder)] at hrun
        cases hrun
        refine ⟨[], name, names, dir, rfl, on_pure dir _,
          .inl ⟨_, hlookup, hkind.trans hfolder, ?_⟩⟩
        rw [List.append_nil]

end Edit

/-! ### The checks -/

/-- `f₀` is the folder without the record that answers to a name, if there is one. -/
def Folder.Without (f : Folder) (name : String) (f₀ : Folder) : Prop :=
  f.find name = none ∧ f₀ = f ∨ ∃ n r, f.find name = some (n, r) ∧ f₀.Adds n r f

namespace Disk

/-- What is known of a file when the check is made: the directory that it goes into, what is found
there under its name, the clusters that are given back if this is replaced, and those by which the
directory has to grow. -/
structure Counts (d : Disk) (path : String) (dir : Nat) (old : Option DirEntry)
    (reclaimed grow : Nat) : Prop where
  place : ∃ name, (splitPath path).getLast? = some name ∧
    d.resolve (splitPath path).dropLast = .ok dir ∧ d.lookup dir name = .ok old ∧
    (Edit.neededGrowth dir name archiveAttribute old).on d = (.ok grow, d)
  file : ∀ e ∈ old, e.isDirectory = false
  reclaimed : d.reclaimed old = .ok reclaimed

/-- The checks of the free clusters are exact. -/
structure ExactChecks (d : Disk) : Prop where
  /-- A file for which too few clusters are free is refused, and nothing has happened. -/
  refused : ∀ path source size dir old reclaimed grow, 0 ≤ size → size ≤ Edit.maxFileSize →
    d.Counts path dir old reclaimed grow →
    d.volume.free + reclaimed < d.clustersFor size.toNat + grow →
    (Edit.writeFile path source size).on d = (.error (.noRoomForFile path
      (((d.clustersFor size.toNat : Int) + grow) * d.volume.geometry.clusterSize)
      (((d.volume.free + reclaimed : Nat) : Int) * d.volume.geometry.clusterSize)), d)
  /-- Any other file is written, and takes what was counted. -/
  written : ∀ path source size dir old reclaimed grow,
    (Call.writeFile path source size).Supplied → size ≤ Edit.maxFileSize →
    d.Counts path dir old reclaimed grow →
    d.clustersFor size.toNat + grow ≤ d.volume.free + reclaimed →
    ∃ d', (Edit.writeFile path source size).on d = (.ok (), d') ∧
      d'.volume.free + (d.clustersFor size.toNat + grow) = d.volume.free + reclaimed ∧
      d.ChainGrows d' dir grow
  /-- A file that is not written leaves everything as it is. -/
  failed : ∀ path source size e d', (Call.writeFile path source size).Supplied →
    (Edit.writeFile path source size).on d = (.error e, d') → d' = d
  /-- A directory for which too few clusters are free is refused, and nothing has happened. -/
  childRefused : ∀ dir path name grow, d.HasDirectory dir →
    (Edit.neededGrowth dir name directoryAttribute none).on d = (.ok grow, d) →
    d.volume.free < 1 + grow →
    (Edit.makeChild dir path name).on d =
      (.error (.noRoomForDirectory d.volume.image path (1 + grow) d.volume.free), d)
  /-- Any other directory is made, and takes what was counted. -/
  childMade : ∀ dir path name grow, d.HasDirectory dir →
    (Edit.neededGrowth dir name directoryAttribute none).on d = (.ok grow, d) →
    1 + grow ≤ d.volume.free →
    ∃ c d', (Edit.makeChild dir path name).on d = (.ok c, d') ∧
      d'.volume.free + (1 + grow) = d.volume.free ∧ d.ChainGrows d' dir grow
  /-- One name more on a path makes one directory more, unless it is there. -/
  next : ∀ path names name dir d', splitPath path = names ++ [name] →
    (Edit.makeDirectory (pathText names)).on d = (.ok dir, d') → d'.HasDirectory dir ∧
      (d'.lookup dir name = .ok none →
        (Edit.makeDirectory path).on d = (Edit.makeChild dir (names ++ [name]) name).on d')
  /-- A path that is not made is made up to some name, and what is left is what making the names
  before that one leaves. -/
  stopped : ∀ path e d', (Edit.makeDirectory path).on d = (.error e, d') →
    ∃ before name after dir, splitPath path = before ++ name :: after ∧
      (Edit.makeDirectory (pathText before)).on d = (.ok dir, d') ∧
      ((∃ x, d'.lookup dir name = .ok (some x) ∧ x.isDirectory = false ∧
          e = .notDirectory d'.volume.image (pathText (before ++ [name]))) ∨
        d'.lookup dir name = .ok none ∧
          (Edit.makeChild dir (before ++ [name]) name).on d' = (.error e, d'))

variable {d d' : Disk} {G : Catalog} {K : Owner → List Nat} {loose : List Nat}

/-! ### Files -/

namespace Holds

variable {path : String} {size : Int} {dir reclaimed grow : Nat} {old : Option DirEntry}

/-- Once the counts of a file are known, its check is next. -/
theorem writeFile_eq_putFile (h : d.Holds G K loose) (hw : d.Writable) (source : Content)
    (hsize : 0 ≤ size) (hmax : size ≤ Edit.maxFileSize)
    (hcounts : d.Counts path dir old reclaimed grow) :
    ∃ name, (splitPath path).getLast? = some name ∧ d.lookup dir name = .ok old ∧
      (Edit.neededGrowth dir name archiveAttribute old).on d = (.ok grow, d) ∧
      (Edit.writeFile path source size).on d =
        (Edit.putFile dir name path source size (d.clustersFor size.toNat) old
          d.volume.geometry.clusterSize reclaimed).on d := by
  obtain ⟨⟨name, hname, hresolve, hlookup, hgrow⟩, hfile, hreclaimed⟩ := hcounts
  obtain ⟨count, rfl⟩ := Int.eq_ofNat_of_zero_le hsize
  have hleast : ¬ (count : Int) ≤ -(Edit.maxQuotient * d.volume.geometry.clusterSize) := by
    have := Int.mul_pos Edit.maxQuotient_pos (Int.natCast_pos.2 h.sound.pos)
    omega
  refine ⟨name, hname, hlookup, hgrow, ?_⟩
  rw [Edit.writeFile_eq hw.1 hw.2 source hname (not_lt.2 hmax) hresolve hleast,
    Edit.putNamed_eq path d.volume.image source count _ hlookup hfile hreclaimed,
    Edit.clustersFor_eq h.sound.pos, Int.toNat_natCast]

/-- The growth that was counted is that of a folder which the name can go into. -/
theorem growth_of_counts {f₀ : Folder} {name : String} {data : Bytes}
    (hneeded : (Edit.neededGrowth dir name archiveAttribute old).on d =
      ((spellingOf name f₀.taken).map fun s =>
        growth data d.volume.geometry.clusterSize (s.longPart.length + 1), d))
    (hgrow : (Edit.neededGrowth dir name archiveAttribute old).on d = (.ok grow, d)) :
    ∃ s, spellingOf name f₀.taken = .ok s ∧
      growth data d.volume.geometry.clusterSize (s.longPart.length + 1) = grow := by
  rw [hneeded] at hgrow
  cases hs : spellingOf name f₀.taken with
  | error e =>
    rw [hs] at hgrow
    cases hgrow
  | ok s =>
    rw [hs] at hgrow
    cases hgrow
    exact ⟨s, rfl, rfl⟩

/-- For a file that does not take the place of a directory the counts are known once its name can be
spelled, and a directory grows by no more clusters than there are slots. -/
theorem exists_counts (h : d.Holds G K loose) (hw : d.Writable) {name : String} {f : Folder}
    (hname : (splitPath path).getLast? = some name)
    (hresolve : d.resolve (splitPath path).dropLast = .ok dir) (hf : G dir = some f)
    (hfile : ∀ x, f.find name = some x → x.2.body.isFolder = false) :
    ∃ f₀, f.Without name f₀ ∧ ∀ s, spellingOf name f₀.taken = .ok s →
      ∃ old reclaimed grow, d.Counts path dir old reclaimed grow ∧
        grow ≤ s.longPart.length + 1 := by
  obtain ⟨o, ho, -, -⟩ := h.exists_owner hf
  obtain ⟨hwhole, -, hstands⟩ := h.stands_bytes hf ho
  have hlookup := h.lookup_eq hw.1 hf name
  have hgrowth : ∀ {data f₀}, Edit.Shows data f₀ → ∀ count,
      growth data d.volume.geometry.clusterSize (count + 1) ≤ count + 1 := fun hshows count =>
    (Edit.growth_facts hshows.1 h.sound.slots h.sound.pos (Nat.succ_pos count)).2.1
  cases hfind : f.find name with
  | none =>
    rw [hfind, Option.map_none] at hlookup
    refine ⟨f, .inl ⟨hfind, rfl⟩, fun s hs => ⟨none, 0, _, ⟨⟨name, hname, hresolve, hlookup, ?_⟩,
      by simp, rfl⟩, hgrowth ⟨hwhole, hstands⟩ s.longPart.length⟩⟩
    have hneeded := Edit.neededGrowth_on h hw.1 hf ho name (.file 0 []) none rfl ⟨hwhole, hstands⟩
    rwa [hs] at hneeded
  | some x =>
    obtain ⟨n, r⟩ := x
    rw [hfind, Option.map_some] at hlookup
    have hr := Folder.mem_of_find hfind
    obtain ⟨f₀, hadds, hshows⟩ := Edit.exists_shows_withoutEntry ⟨hwhole, hstands⟩ hr
    refine ⟨f₀, .inr ⟨n, r, hfind, hadds⟩, fun s hs => ⟨some (r.entry n), _, _,
      ⟨⟨name, hname, hresolve, hlookup, ?_⟩, ?_, h.reclaimed_eq hf hr⟩,
      hgrowth hshows s.longPart.length⟩⟩
    · have hneeded :=
        Edit.neededGrowth_on h hw.1 hf ho name (.file 0 []) (some (r.entry n)) rfl hshows
      rwa [hs] at hneeded
    · rintro _ ⟨⟩
      exact (r.isDirectory_entry n).trans (hfile _ hfind)

/-- A file is written if enough clusters are free. -/
theorem writeFile_passed (h : d.Holds G K loose) (hw : d.Writable) {source : Content}
    (hsupplied : (Call.writeFile path source size).Supplied) (hmax : size ≤ Edit.maxFileSize)
    (hcounts : d.Counts path dir old reclaimed grow)
    (hroom : d.clustersFor size.toNat + grow ≤ d.volume.free + reclaimed) :
    ∃ d', (Edit.writeFile path source size).on d = (.ok (), d') ∧
      d'.volume.free + (d.clustersFor size.toNat + grow) = d.volume.free + reclaimed ∧
      d.ChainGrows d' dir grow := by
  have hsize := (Call.supplied_iff.1 hsupplied).1
  obtain ⟨name, hname, hlookup, hgrow, hrun⟩ := h.writeFile_eq_putFile hw source hsize hmax hcounts
  have hneeded := Edit.clustersFor_eq h.sound.pos size.toNat
  rw [Int.toNat_of_nonneg hsize] at hneeded
  have hfew : ¬ (d.clustersFor size.toNat : Int) + grow >
      ((d.volume.free + reclaimed : Nat) : Int) := by omega
  obtain ⟨_, _, hresolve, -, -⟩ := hcounts.place
  obtain ⟨f, hf⟩ := h.exists_folder_of_resolve hw.1 hresolve
  obtain ⟨o, ho, hchain, -⟩ := h.exists_owner hf
  obtain ⟨hwhole, -, hstands⟩ := h.stands_bytes hf ho
  rw [h.lookup_eq hw.1 hf] at hlookup
  cases hfind : f.find name with
  | none =>
    rw [hfind, Option.map_none] at hlookup
    obtain rfl := Except.ok.inj hlookup
    cases hcounts.reclaimed
    obtain ⟨s, hs, hgrowth⟩ : ∃ s, spellingOf name f.taken = .ok s ∧
        growth ((K o).flatMap d.readCluster) d.volume.geometry.clusterSize
          (s.longPart.length + 1) = grow :=
      growth_of_counts (Edit.neededGrowth_on h hw.1 hf ho name (.file 0 []) none rfl
        ⟨hwhole, hstands⟩) hgrow
    obtain ⟨result, d', hstore, hstores, hexact⟩ :=
      Edit.storeFile_on h hw.1 hf ho path source hmax hs (by rw [hneeded, hgrowth]; omega)
    obtain ⟨rfl, -⟩ := hstores.of_supplied hsupplied
    obtain ⟨hfree, more, hmore, hchain'⟩ := hexact rfl
    rw [hgrowth] at hfree hmore
    rw [hneeded] at hstore
    exact ⟨d', hrun.trans ((Edit.putFile_none hgrow hfew).trans hstore), hfree, K o, more, hchain,
      hmore, hchain'⟩
  | some x =>
    obtain ⟨n, r⟩ := x
    rw [hfind, Option.map_some] at hlookup
    obtain rfl := Except.ok.inj hlookup
    have hr := Folder.mem_of_find hfind
    have hfile : r.body.isFolder = false :=
      (r.isDirectory_entry n).symm.trans (hcounts.file _ rfl)
    cases (h.reclaimed_eq hf hr).symm.trans hcounts.reclaimed
    obtain ⟨f₁, hadds, hshows⟩ := Edit.exists_shows_withoutEntry ⟨hwhole, hstands⟩ hr
    obtain ⟨s, hs, hgrowth⟩ : ∃ s, spellingOf name f₁.taken = .ok s ∧
        growth (Edit.withoutEntry ((K o).flatMap d.readCluster) (r.entry n))
          d.volume.geometry.clusterSize (s.longPart.length + 1) = grow :=
      growth_of_counts (Edit.neededGrowth_on h hw.1 hf ho name (.file 0 []) (some (r.entry n)) rfl
        hshows) hgrow
    obtain ⟨d₁, K₁, hremove, hholds₁, halike, hfree₁, hK, hdata⟩ :=
      Edit.removeEntry_on h hf ho hadds hfile hshows
    have hgeometry := halike.geometry
    have ho₁ : (G.replace dir f₁).Starts d₁.volume.geometry.rootCluster o dir := by
      rw [hgeometry]
      exact ho.replace hf hadds (Edit.ne_of_isFolder h hf ho hf hr hfile)
    -- The directory from which the file was removed is the one that the growth was counted for.
    obtain ⟨result, d', hstore, hstores, hexact⟩ := Edit.storeFile_on hholds₁
      (halike.closed.trans hw.1) (Catalog.replace_self ..) ho₁ path source hmax hs
      (by rw [hgeometry, hneeded, hK, hdata, hgrowth, hfree₁]; omega)
    obtain ⟨rfl, -⟩ := hstores.of_supplied hsupplied
    obtain ⟨hfree, more, hmore, hchain'⟩ := hexact rfl
    have hsame : d₁.clustersFor size.toNat = d.clustersFor size.toNat := by
      rw [clustersFor, clustersFor, hgeometry]
    rw [hgeometry, hK, hdata, hgrowth] at hfree hmore
    rw [hsame, hfree₁] at hfree
    rw [hgeometry, hneeded] at hstore
    rw [hK] at hchain'
    exact ⟨d', hrun.trans ((Edit.putFile_some hgrow hfew hremove).trans hstore), hfree, K o, more,
      hchain, hmore, hchain'⟩

/-! ### Everything -/

/-- Once the growth of a directory is known, another one is made in it if enough clusters are free,
and else refused. -/
theorem makeChild_of_growth (h : d.Holds G K loose) (hw : d.Writable) (hdir : d.HasDirectory dir)
    {name : String} (path : List String)
    (hgrow : (Edit.neededGrowth dir name directoryAttribute none).on d = (.ok grow, d)) :
    1 + grow > d.volume.free ∧ (Edit.makeChild dir path name).on d =
        (.error (.noRoomForDirectory d.volume.image path (1 + grow) d.volume.free), d) ∨
      ∃ c d', (Edit.makeChild dir path name).on d = (.ok c, d') ∧
        d'.volume.free + (1 + grow) = d.volume.free ∧ d.ChainGrows d' dir grow := by
  obtain ⟨f, hf⟩ := h.exists_folder hw hdir
  rcases Edit.makeChild_on h hw.1 hf path name with ⟨e, hgrow', -⟩ | ⟨s, grow', -, hgrow', hcases⟩
  · cases hgrow'.symm.trans hgrow
  cases hgrow'.symm.trans hgrow
  refine hcases.imp_right ?_
  rintro ⟨d', K', n, f', c, hrun, -, -, -, -, hfree, hgrows⟩
  exact ⟨c, d', hrun, hfree, hgrows⟩

/-- On a disk that holds a catalog the checks are exact. -/
theorem exactChecks (h : d.Holds G K loose) (hw : d.Writable) : d.ExactChecks := by
  constructor
  · intro path source size dir old reclaimed grow hsize hmax hcounts hroom
    obtain ⟨name, hname, hlookup, hgrow, hrun⟩ :=
      h.writeFile_eq_putFile hw source hsize hmax hcounts
    exact hrun.trans (Edit.putFile_refused hgrow (by omega))
  · intro path source size dir old reclaimed grow hsupplied hmax hcounts hroom
    exact h.writeFile_passed hw hsupplied hmax hcounts hroom
  · intro path source size e d' hsupplied hrun
    obtain ⟨hsize, hlong⟩ := Call.supplied_iff.1 hsupplied
    obtain ⟨result, d₁, hrun', hwrites⟩ := Edit.writeFile_on h hw.1 hw.2 path source size
    cases hrun'.symm.trans hrun
    rcases hwrites.failed h hw hsize with ⟨hsame, -⟩ | ⟨-, -, hshort⟩
    · exact hsame
    · omega
  · intro dir path name grow hdir hgrow hroom
    rcases h.makeChild_of_growth hw hdir path hgrow with ⟨-, hrun⟩ | ⟨c, d', -, hfree, -⟩
    · exact hrun
    · omega
  · intro dir path name grow hdir hgrow hroom
    rcases h.makeChild_of_growth hw hdir path hgrow with ⟨hfew, -⟩ | hmade
    · omega
    · exact hmade
  · intro path names name dir d' hpath hrun
    have hnames : ∀ name ∈ names, IsPathName name := fun name hname =>
      isPathName_of_mem (hpath ▸ List.mem_append_left _ hname)
    obtain ⟨f, hf, -⟩ := h.root
    rw [Edit.makeDirectory_eq hw.1 hw.2, splitPath_pathText hnames] at hrun
    obtain ⟨result, d₁, G', K', found, hrun', -, hresult, hfound, hholds', halike⟩ :=
      Edit.makeFrom_cases h hw.1 hf names []
    cases hrun'.symm.trans hrun
    obtain ⟨g, hg⟩ := hfound dir ((hresult dir).1 rfl)
    refine ⟨hholds'.hasDirectory (halike.writable hw) hg, fun hmissing => ?_⟩
    have hlast : ∀ c, Edit.makeFrom ([] ++ names ++ [name]) c [] = pure c := fun _ => rfl
    rw [Edit.makeDirectory_eq hw.1 hw.2, hpath, Edit.makeFrom_append, Edit.on_bind_ok _ hrun,
      Edit.makeFrom_create hmissing, funext hlast, bind_pure, List.nil_append]
  · intro path e d' hrun
    obtain ⟨f, hf, -⟩ := h.root
    rw [Edit.makeDirectory_eq hw.1 hw.2] at hrun
    obtain ⟨before, name, after, last, hpath, hbefore, hwhy⟩ :=
      Edit.makeFrom_failed h hw.1 hf (splitPath path) [] hrun
    have hnames : ∀ name ∈ before, IsPathName name := fun name hname =>
      isPathName_of_mem (hpath ▸ List.mem_append_left _ hname)
    refine ⟨before, name, after, last, hpath, ?_, hwhy⟩
    rw [Edit.makeDirectory_eq hw.1 hw.2, splitPath_pathText hnames]
    exact hbefore

end Holds

/-- In every state that calls lead to on a volume that was formatted the checks are exact. -/
theorem Fresh.exactChecks_after (h : d.Fresh) (calls : List Call) :
    (d.after calls).ExactChecks := by
  obtain ⟨hw, G, K, loose, hholds, -⟩ := h.after calls
  exact hholds.exactChecks hw

/-- The checks are exact once a directory was made, a file was written to it, and another one has
taken its place. -/
theorem exists_exactChecks_after_file : ∃ d : Disk, d.Fresh ∧
    (d.after [.makeDirectory "bin", .writeFile "bin/sh" (Content.ofBytes [1, 2, 3]) 3,
      .writeFile "BIN/SH" (Content.ofBytes [4]) 1]).ExactChecks := by
  obtain ⟨d, hfresh⟩ := exists_fresh
  exact ⟨d, hfresh, hfresh.exactChecks_after _⟩

end Disk

end BootImage.Fat
