import BootImage.Proofs.Assembly.Images
import BootImage.Proofs.Session.Relating

/-!
# Calls on an assembler

The steps of an assembly can be called one by one, in any order, and a call that fails leaves a
state that the next one starts from. So what holds of an assembler is what each call keeps, however
it ends. The parameters never change, and a file that can be read can be read on, for nothing is
taken from the tree. An open volume stands for an image that is there, which is why sealing can
always close it; and there is none once the image is sealed.

How much a step may touch is told by three relations. Most steps leave the volume alone. Those that
ask for it may open it and change it, but do nothing to a sealed image. The third relation is what
all of them keep, sealing among them.

## Main definitions

* `Assembly.Call`, `Assembly.Call.on`: a call, what it gives and the state after it.
* `Assembly.State.after`: the state after a list of calls.
* `Assembler.anew`: a new assembler with the same parameters.
* `Assembly.State.Keeps`, `Assembly.State.Works`, `Assembly.State.Leads`: what is kept by a step
  that is not for the volume, by one that is, and by any.

## Main results

* `Assembly.run_openVolume`, `Assembly.run_edit`, `Assembly.run_sealImage`: the steps that use the
  volume, with all ways in which they end.
* `Assembly.State.leads_after`: what any calls keep.
-/

namespace BootImage

open Host (Path FileTree Fault)
open Fat (Edit)

/-- A new assembler with the same parameters. -/
def Assembler.anew (x : Assembler) : Assembler where
  image := x.image
  blockSize := x.blockSize
  blockCount := x.blockCount
  sectorsPerCluster := x.sectorsPerCluster
  directories := x.directories

theorem retains_formatFile (image : Path) (sectorsPerCluster : Int) (label : String) (id : Int) :
    Within Session.Retains (formatFile image sectorsPerCluster label id) := by
  refine (Build.retains_query _).bind fun isFile => ?_
  cases isFile with
  | false => exact within_throw_bind _ _
  | true =>
    refine (Build.retains_query _).bind fun content => ?_
    refine (Build.retains_ofExcept _ _).bind fun formatted => ?_
    exact (Build.retains_write image fun _ => formatted.2).bind fun _ => within_pure _

namespace Assembly

/-- A call on an assembler. -/
inductive Call
  | createImage
  | format
  | makeDirectory (path : String)
  | copyFile (source : Path) (dest : String)
  | sealImage
  | assemble (own suite : List BinaryEntry) (missing : List MissingEntry)

namespace Call

/-- What a call does. -/
def program : Call → Assembly Unit
  | createImage => Assembly.createImage
  | format => do
    let _ ← Assembly.format
  | makeDirectory path => Assembly.makeDirectory path
  | copyFile source dest => do
    let _ ← Assembly.copyFile source dest
  | sealImage => Assembly.sealImage
  | assemble own suite missing => do
    let _ ← Assembly.assemble own suite missing

/-- What a call gives, and the state after it. -/
def on (call : Call) (s : State) : Except Failure Unit × State :=
  call.program.run.run s

/-- A call that puts something into the image. -/
def Fills : Call → Prop
  | makeDirectory _ | copyFile _ _ => True
  | _ => False

/-- A call that starts a new image. -/
def Starts : Call → Prop
  | createImage | assemble _ _ _ => True
  | _ => False

/-- Whether a call formats the image. -/
def formats : Call → Bool
  | format => true
  | _ => false

end Call

/-- The state after calls, one after the other, whether or not they fail. -/
def State.after (s : State) (calls : List Call) : State :=
  calls.foldl (fun s call => (call.on s).2) s

variable {α β : Type}

/-! ### Steps and their runs -/

theorem run_query (f : FileTree → Except Fault α) (s : State) :
    (session (Build.query f)).run.run s =
      ((f s.session.tree).mapError fun fault => ⟨.host fault, none⟩, s) := by
  rw [run_session, Build.run_query]

theorem run_change (f : FileTree → Except Fault FileTree) (s : State) :
    (session (Build.change f)).run.run s = match f s.session.tree with
      | .ok tree => (.ok (), s.withTree tree)
      | .error fault => (.error ⟨.host fault, none⟩, s) := by
  rw [run_session, Build.run_change]
  cases f s.session.tree <;> rfl

theorem run_ofExcept {ε : Type} (cause : ε → Cause) (r : Except ε α) (s : State) :
    (session (Build.ofExcept cause r)).run.run s = (r.mapError fun e => ⟨cause e, none⟩, s) := by
  rw [run_session, Build.run_ofExcept]

/-- What follows a look at the tree is run where that finds something. -/
theorem run_query_bind (f : FileTree → Except Fault α) (g : α → Assembly β) (s : State) :
    (session (Build.query f) >>= g).run.run s = match f s.session.tree with
      | .error fault => (.error ⟨.host fault, none⟩, s)
      | .ok a => (g a).run.run s := by
  have hquery := run_query f s
  cases hfound : f s.session.tree with
  | error fault =>
    rw [hfound] at hquery
    exact run_bind_error _ hquery
  | ok a =>
    rw [hfound] at hquery
    exact run_bind_ok _ hquery

/-- What follows a change of the tree is run on the tree after it. -/
theorem run_change_bind (f : FileTree → Except Fault FileTree) (g : Unit → Assembly β) (s : State) :
    (session (Build.change f) >>= g).run.run s = match f s.session.tree with
      | .error fault => (.error ⟨.host fault, none⟩, s)
      | .ok tree => (g ()).run.run (s.withTree tree) := by
  have hchange := run_change f s
  cases hmade : f s.session.tree with
  | error fault =>
    rw [hmade] at hchange
    exact run_bind_error _ hchange
  | ok tree =>
    rw [hmade] at hchange
    exact run_bind_ok _ hchange

/-- The volume is asked for: a sealed image has none, and one that is not open is opened. -/
theorem run_openVolume (s : State) : openVolume.run.run s =
    if s.assembler.sealed then (.error ⟨.image (.sealed (toString s.assembler.image)), none⟩, s)
    else match s.assembler.volume with
      | some volume => (.ok volume, s)
      | none => match s.session.tree.read s.assembler.image with
        | .error fault => (.error ⟨.host fault, none⟩, s)
        | .ok content =>
          match Fat.Volume.ofContent (toString s.assembler.image) content false with
          | .error e => (.error ⟨.image e, none⟩, s)
          | .ok volume =>
            (.ok volume, { s with assembler := { s.assembler with volume := some volume } }) := by
  rw [openVolume, run_assembler_bind]
  cases hsealed : s.assembler.sealed with
  | true => rfl
  | false =>
    cases hvolume : s.assembler.volume with
    | some volume => rfl
    | none =>
      refine (run_query_bind ..).trans ?_
      cases s.session.tree.read s.assembler.image with
      | error fault => rfl
      | ok content =>
        simp only
        cases Fat.Volume.ofContent (toString s.assembler.image) content false with
        | error e => rfl
        | ok volume => rfl

/-- A change of a volume is made on the image, and written back to it even if it fails. -/
theorem run_edit (v : Fat.Volume) (change : Edit α) (s : State) : (edit v change).run.run s =
    match s.session.tree.read s.assembler.image with
    | .error fault => (.error ⟨.host fault, none⟩, s)
    | .ok content =>
      match s.session.tree.write s.assembler.image (change.on ⟨v, content⟩).2.content with
      | .error fault => (.error ⟨.host fault, none⟩, s)
      | .ok tree => ((change.on ⟨v, content⟩).1.mapError fun e => ⟨.image e, none⟩,
          { s.withTree tree with
            assembler := { s.assembler with volume := (change.on ⟨v, content⟩).2.volume } }) := by
  rw [edit, run_assembler_bind, run_query_bind]
  cases s.session.tree.read s.assembler.image with
  | error fault => rfl
  | ok content =>
    refine (run_change_bind
      (·.write s.assembler.image (change.on ⟨v, content⟩).2.content) ..).trans ?_
    simp only
    cases s.session.tree.write s.assembler.image (change.on ⟨v, content⟩).2.content with
    | error fault => rfl
    | ok tree => exact (run_bind_ok _ rfl).trans (run_ofExcept ..)

/-- Sealing closes the volume, if it is open. -/
theorem run_sealImage (s : State) : sealImage.run.run s =
    match s.assembler.volume with
    | none => (.ok (), { s with assembler := { s.assembler with volume := none, sealed := true } })
    | some volume =>
      match s.session.tree.read s.assembler.image with
      | .error fault => (.error ⟨.host fault, none⟩, s)
      | .ok content =>
        match s.session.tree.write s.assembler.image
            (Fat.Disk.close ⟨volume, content⟩).content with
        | .error fault => (.error ⟨.host fault, none⟩, s)
        | .ok tree => (.ok (), { s.withTree tree with
            assembler := { s.assembler with volume := none, sealed := true } }) := by
  rw [sealImage, run_assembler_bind]
  cases s.assembler.volume with
  | none => rfl
  | some volume =>
    refine (run_query_bind ..).trans ?_
    cases s.session.tree.read s.assembler.image with
    | error fault => rfl
    | ok content =>
      refine (run_change_bind ..).trans ?_
      simp only
      cases s.session.tree.write s.assembler.image
          (Fat.Disk.close ⟨volume, content⟩).content with
      | error fault => rfl
      | ok tree => rfl

/-! ### What a step keeps -/

theorem image_of_anew {x y : Assembler} (h : x.anew = y.anew) : x.image = y.image := by
  have himage : x.anew.image = y.anew.image := by rw [h]
  exact himage

/-- An open volume stands for an image that can be read. -/
def State.Backed (s : State) : Prop :=
  s.assembler.volume = none ∨ ∃ c, s.session.tree.read s.assembler.image = .ok c

/-- A step that is not for the volume. It does not seal the image either. -/
structure State.Keeps (s s' : State) : Prop where
  anew : s'.assembler.anew = s.assembler.anew
  unsealed : s'.assembler.sealed = true → s.assembler.sealed = true
  retains : s.session.Retains s'.session
  volume : s'.assembler.volume = s.assembler.volume

/-- A step that may open the volume and change it. -/
structure State.Works (s s' : State) : Prop where
  anew : s'.assembler.anew = s.assembler.anew
  unsealed : s'.assembler.sealed = true → s.assembler.sealed = true
  retains : s.session.Retains s'.session
  backed : s.Backed → s'.Backed

/-- Any step. There is no open volume of a sealed image. -/
structure State.Leads (s s' : State) : Prop where
  anew : s'.assembler.anew = s.assembler.anew
  retains : s.session.Retains s'.session
  backed : s.Backed → s'.Backed
  closed : (s.assembler.sealed = true → s.assembler.volume = none) →
    s'.assembler.sealed = true → s'.assembler.volume = none

instance : Std.Refl State.Keeps :=
  ⟨fun s => ⟨rfl, id, Std.Refl.refl s.session, rfl⟩⟩

instance : IsTrans State State.Keeps :=
  ⟨fun _ _ _ h h' => ⟨h'.anew.trans h.anew, fun hs => h.unsealed (h'.unsealed hs),
    IsTrans.trans _ _ _ h.retains h'.retains, h'.volume.trans h.volume⟩⟩

instance : Std.Refl State.Works :=
  ⟨fun s => ⟨rfl, id, Std.Refl.refl s.session, id⟩⟩

instance : IsTrans State State.Works :=
  ⟨fun _ _ _ h h' => ⟨h'.anew.trans h.anew, fun hs => h.unsealed (h'.unsealed hs),
    IsTrans.trans _ _ _ h.retains h'.retains, fun hs => h'.backed (h.backed hs)⟩⟩

instance : Std.Refl State.Leads :=
  ⟨fun s => ⟨rfl, Std.Refl.refl s.session, id, id⟩⟩

instance : IsTrans State State.Leads :=
  ⟨fun _ _ _ h h' => ⟨h'.anew.trans h.anew, IsTrans.trans _ _ _ h.retains h'.retains,
    fun hs => h'.backed (h.backed hs), fun hs => h'.closed (h.closed hs)⟩⟩

theorem State.Keeps.works {s s' : State} (h : s.Keeps s') : s.Works s' := by
  refine ⟨h.anew, h.unsealed, h.retains, fun hs => ?_⟩
  rcases hs with hnone | ⟨c, hread⟩
  · exact .inl (h.volume.trans hnone)
  · refine .inr ?_
    rw [image_of_anew h.anew]
    exact h.retains.read hread

theorem State.Works.leads {s s' : State} (h : s.Works s') (hs : s.assembler.sealed = false) :
    s.Leads s' := by
  refine ⟨h.anew, h.retains, h.backed, fun _ hs' => ?_⟩
  cases hs.symm.trans (h.unsealed hs')

theorem State.Keeps.leads {s s' : State} (h : s.Keeps s') : s.Leads s' :=
  ⟨h.anew, h.retains, h.works.backed, fun hs hs' => h.volume.trans (hs (h.unsealed hs'))⟩

variable {x : Assembly α}

theorem works_of_keeps (h : Within State.Keeps x) : Within State.Works x :=
  h.mono fun _ _ => State.Keeps.works

theorem leads_of_keeps (h : Within State.Keeps x) : Within State.Leads x :=
  h.mono fun _ _ => State.Keeps.leads

theorem keeps_assembler : Within State.Keeps assembler :=
  fun s => Std.Refl.refl s

theorem keeps_session {b : Build α} (hb : Within Session.Retains b) :
    Within State.Keeps (session b) :=
  fun s => ⟨rfl, id, hb s.session, rfl⟩

theorem keeps_log (message : String) : Within State.Keeps (session (Build.log message)) :=
  keeps_session (Build.retains_log message)

theorem keeps_update {f : Assembler → Assembler} (hanew : ∀ x, (f x).anew = x.anew)
    (hsealed : ∀ x, (f x).sealed = true → x.sealed = true)
    (hvolume : ∀ x, (f x).volume = x.volume) : Within State.Keeps (update f) :=
  fun s => ⟨hanew s.assembler, hsealed s.assembler, Std.Refl.refl s.session, hvolume s.assembler⟩

theorem keeps_recordMissing (m : MissingEntry) : Within State.Keeps (recordMissing m) :=
  keeps_update (fun _ => rfl) (fun _ => id) fun _ => rfl

theorem keeps_createImage : Within State.Keeps createImage := by
  have hnew : Within State.Keeps (update fun a =>
      { a with formatted := false, sealed := false, report := { image := a.image } }) :=
    keeps_update (fun _ => rfl) (fun _ hs => by cases hs) fun _ => rfl
  refine keeps_assembler.bind fun a => ?_
  have hmake : Within State.Keeps (session do
      Build.makeDirectories a.image.parent
      Build.change (·.write a.image (Content.zeros a.capacity.toNat))
      Build.log s!"[OK]    {a.image.name} — {a.blockCount} × {a.blockSize} = {a.capacity} bytes") :=
    keeps_session ((Build.retains_makeDirectories _).bind fun _ =>
      (Build.retains_write _ _).bind fun _ => Build.retains_log _)
  split
  · exact (keeps_session (within_throw _)).bind fun _ => hmake.bind fun _ => hnew
  · exact hmake.bind fun _ => hnew

theorem keeps_format : Within State.Keeps format := by
  refine keeps_assembler.bind fun a => ?_
  refine (keeps_session (retains_formatFile _ _ _ _)).bind fun g => ?_
  refine Within.bind (keeps_update (fun _ => rfl) (fun _ => id) fun _ => rfl) fun _ => ?_
  exact (keeps_log _).bind fun _ => within_pure _

theorem works_openVolume : Within State.Works openVolume := by
  intro s
  rw [run_openVolume]
  split
  · exact Std.Refl.refl s
  · split
    · exact Std.Refl.refl s
    · split
      · exact Std.Refl.refl s
      · rename_i hread
        split
        · exact Std.Refl.refl s
        · exact ⟨rfl, id, Std.Refl.refl s.session, fun _ => .inr ⟨_, hread⟩⟩

theorem works_edit (v : Fat.Volume) (change : Edit α) : Within State.Works (edit v change) := by
  intro s
  rw [run_edit]
  split
  · exact Std.Refl.refl s
  · rename_i hread
    split
    · exact Std.Refl.refl s
    · rename_i hwrite
      refine ⟨rfl, id, FileTree.retains_write hwrite, fun _ => .inr ?_⟩
      exact (FileTree.retains_write hwrite).read hread

theorem works_makeDirectory (path : String) : Within State.Works (Assembly.makeDirectory path) :=
  works_openVolume.bind fun v => (works_edit v _).bind fun _ => works_of_keeps (keeps_log _)

theorem works_copyFile (source : Path) (dest : String) :
    Within State.Works (Assembly.copyFile source dest) := by
  have hmissing : ∀ (m : MissingEntry) (message : String), Within State.Works (do
      recordMissing m
      session (Build.log message)
      pure false) := fun m message =>
    works_of_keeps ((keeps_recordMissing m).bind fun _ => (keeps_log _).bind fun _ => within_pure _)
  rw [copyFile_eq]
  refine works_openVolume.bind fun v => ?_
  refine (works_of_keeps (keeps_session (Build.retains_query _))).bind fun isFile => ?_
  split
  · split
    · refine (works_of_keeps (keeps_session (Build.retains_query _))).bind fun content => ?_
      refine (works_edit v _).bind fun _ => works_of_keeps ?_
      refine Within.bind (keeps_update (fun _ => rfl) (fun _ => id) fun _ => rfl) fun _ => ?_
      exact (keeps_log _).bind fun _ => within_pure _
    · exact hmissing _ _
  · exact hmissing _ _

/-! ### What a call keeps -/

/-- The failure of a step that asks for the volume of a sealed image. -/
def State.sealedFailure (s : State) : Failure :=
  ⟨.image (.sealed (toString s.assembler.image)), none⟩

/-- A step that begins by asking for the volume fails on a sealed image, and changes nothing. -/
theorem run_openVolume_bind {s : State} (f : Fat.Volume → Assembly α)
    (hs : s.assembler.sealed = true) :
    (openVolume >>= f).run.run s = (.error s.sealedFailure, s) := by
  refine run_bind_error f ?_
  rw [run_openVolume, if_pos hs]
  rfl

theorem leads_openVolume_bind {f : Fat.Volume → Assembly α}
    (hworks : Within State.Works (openVolume >>= f)) : Within State.Leads (openVolume >>= f) := by
  intro s
  cases hs : s.assembler.sealed with
  | true =>
    rw [run_openVolume_bind f hs]
    exact Std.Refl.refl s
  | false => exact (hworks s).leads hs

theorem leads_makeDirectory (path : String) : Within State.Leads (Assembly.makeDirectory path) :=
  leads_openVolume_bind (works_makeDirectory path)

theorem leads_copyFile (source : Path) (dest : String) :
    Within State.Leads (Assembly.copyFile source dest) :=
  leads_openVolume_bind (works_copyFile source dest)

theorem leads_sealImage : Within State.Leads sealImage := by
  intro s
  rw [run_sealImage]
  split
  · exact ⟨rfl, Std.Refl.refl s.session, fun _ => .inl rfl, fun _ _ => rfl⟩
  · split
    · exact Std.Refl.refl s
    · split
      · exact Std.Refl.refl s
      · rename_i hwrite
        exact ⟨rfl, FileTree.retains_write hwrite, fun _ => .inl rfl, fun _ _ => rfl⟩

/-- The directories and the files of an image. -/
def fill (own suite : List BinaryEntry) : Assembly Unit := do
  for directory in (← assembler).directories do
    Assembly.makeDirectory directory
  for entry in own ++ suite do
    let _ ← Assembly.copyFile entry.source entry.dest

/-- Tells what was done. -/
def tell : Assembly Report := do
  let a ← assembler
  session (Build.log (s!"[OK]    {a.image.name} — {a.report.copied.length} files, " ++
    s!"{a.report.missing.length} skipped"))
  return a.report

/-- What is done to an image that is formatted. -/
def complete (own suite : List BinaryEntry) : Assembly Report := do
  tryCatch (fill own suite) fun failure => do
    Assembly.sealImage
    throw failure
  Assembly.sealImage
  tell

theorem assemble_eq (own suite : List BinaryEntry) (missing : List MissingEntry) :
    Assembly.assemble own suite missing = (do
      session announce
      Assembly.createImage
      let _ ← Assembly.format
      update fun a =>
        { a with report := { a.report with missing := a.report.missing ++ missing } }
      complete own suite) :=
  rfl

theorem leads_fill (own suite : List BinaryEntry) : Within State.Leads (fill own suite) := by
  refine (leads_of_keeps keeps_assembler).bind fun a => ?_
  refine (Within.forIn _ fun d _ => leads_makeDirectory d).bind fun _ => ?_
  exact Within.bind (Within.forIn (own ++ suite) fun entry _ =>
    leads_copyFile entry.source entry.dest) fun _ => within_pure _

theorem keeps_tell : Within State.Keeps tell :=
  keeps_assembler.bind fun _ => (keeps_log _).bind fun _ => within_pure _

theorem leads_complete (own suite : List BinaryEntry) :
    Within State.Leads (complete own suite) := by
  refine Within.bind (Within.tryCatch (leads_fill own suite) fun failure => ?_) fun _ => ?_
  · exact leads_sealImage.bind fun _ => within_throw failure
  · exact leads_sealImage.bind fun _ => leads_of_keeps keeps_tell

theorem leads_assemble (own suite : List BinaryEntry) (missing : List MissingEntry) :
    Within State.Leads (Assembly.assemble own suite missing) := by
  rw [assemble_eq]
  refine (leads_of_keeps (keeps_log _)).bind fun _ => ?_
  refine (leads_of_keeps keeps_createImage).bind fun _ => ?_
  refine (leads_of_keeps keeps_format).bind fun _ => ?_
  refine Within.bind (leads_of_keeps ?_) fun _ => leads_complete own suite
  exact keeps_update (fun _ => rfl) (fun _ => id) fun _ => rfl

/-- What every call keeps, whether or not it fails. -/
theorem Call.leads (call : Call) : Within State.Leads call.program := by
  cases call with
  | createImage => exact leads_of_keeps keeps_createImage
  | format => exact leads_of_keeps (keeps_format.bind fun _ => within_pure _)
  | makeDirectory path => exact leads_makeDirectory path
  | copyFile source dest => exact (leads_copyFile source dest).bind fun _ => within_pure _
  | sealImage => exact leads_sealImage
  | assemble own suite missing =>
    exact (leads_assemble own suite missing).bind fun _ => within_pure _

/-- What any calls keep. -/
theorem State.leads_after (s : State) (calls : List Call) : s.Leads (s.after calls) := by
  induction calls generalizing s with
  | nil => exact Std.Refl.refl s
  | cons call calls ih => exact IsTrans.trans _ _ _ (call.leads s) (ih (call.on s).2)

end Assembly

end BootImage
