import BootImage.Proofs.Assembly.Calls
import BootImage.Proofs.Session.Guarding

/-!
# Assembling an image leaves other files alone

Each step of an assembly writes to the image and to the log file, wherever the volume has got to by
then. So a file that is neither is the same after an assembly as before it, however that ends.

## Main definitions

* `Assembly.State.Guards`: a step that leaves a file alone unless the image is there.

## Main results

* `Assembly.guards_assemble`: a whole assembly.
* `Assembly.guards_on`: an assembly on a new assembler.
-/

namespace BootImage

open Host (Path FileTree)
open Fat (Edit)

variable {place : List String} {new : Set Content}

theorem guards_formatFile {image : Path} (h : image.Avoids place) (sectorsPerCluster : Int)
    (label : String) (id : Int) :
    Within (Session.Guards place new) (formatFile image sectorsPerCluster label id) := by
  refine (Build.guards_query _).bind fun isFile => ?_
  cases isFile with
  | false => exact within_throw_bind _ _
  | true =>
    refine (Build.guards_query _).bind fun content => ?_
    refine (Build.guards_ofExcept _ _).bind fun formatted => ?_
    exact (Build.guards_write (.inl h)).bind fun _ => within_pure _

namespace Assembly

/-- A step of an assembly. The image stays where it is, and unless it is at the place, the file
there is left alone. -/
def State.Guards (place : List String) (s s' : State) : Prop :=
  s.assembler.image.Avoids place →
    s'.assembler.image = s.assembler.image ∧ s.session.Guards place ∅ s'.session

instance : Std.Refl (State.Guards place) :=
  ⟨fun s _ => ⟨rfl, Std.Refl.refl s.session⟩⟩

instance : IsTrans State (State.Guards place) := by
  refine ⟨fun s s' s'' h h' himage => ?_⟩
  obtain ⟨hsame, hguards⟩ := h himage
  obtain ⟨hsame', hguards'⟩ := h' (hsame ▸ himage)
  exact ⟨hsame'.trans hsame, IsTrans.trans _ _ _ hguards hguards'⟩

variable {α : Type}

theorem guards_session {b : Build α} (hb : Within (Session.Guards place ∅) b) :
    Within (State.Guards place) (session b) :=
  fun s _ => ⟨rfl, hb s.session⟩

theorem guards_log (message : String) : Within (State.Guards place) (session (Build.log message)) :=
  guards_session (Build.guards_log message)

theorem guards_update {f : Assembler → Assembler} (himage : ∀ x, (f x).image = x.image) :
    Within (State.Guards place) (update f) :=
  fun s _ => ⟨himage s.assembler, Std.Refl.refl s.session⟩

/-- What follows is told of an assembler whose image is elsewhere. -/
theorem guards_assembler_bind {f : Assembler → Assembly α}
    (hf : ∀ x, x.image.Avoids place → Within (State.Guards place) (f x)) :
    Within (State.Guards place) (assembler >>= f) := by
  intro s himage
  rw [run_assembler_bind]
  exact hf s.assembler himage s himage

theorem guards_createImage : Within (State.Guards place) createImage := by
  refine guards_assembler_bind fun x himage => ?_
  have hnew : Within (State.Guards place) (update fun a =>
      { a with formatted := false, sealed := false, report := { image := a.image } }) :=
    guards_update fun _ => rfl
  have hmake : Within (State.Guards place) (session do
      Build.makeDirectories x.image.parent
      Build.change (·.write x.image (Content.zeros x.capacity.toNat))
      Build.log s!"[OK]    {x.image.name} — {x.blockCount} × {x.blockSize} = {x.capacity} bytes") :=
    guards_session ((Build.guards_makeDirectories _).bind fun _ =>
      (Build.guards_write (.inl himage)).bind fun _ => Build.guards_log _)
  split
  · exact (guards_session (within_throw _)).bind fun _ => hmake.bind fun _ => hnew
  · exact hmake.bind fun _ => hnew

theorem guards_format : Within (State.Guards place) format := by
  refine guards_assembler_bind fun x himage => ?_
  refine (guards_session (guards_formatFile himage _ _ _)).bind fun g => ?_
  refine Within.bind (guards_update fun _ => rfl) fun _ => ?_
  exact (guards_log _).bind fun _ => within_pure _

theorem guards_openVolume : Within (State.Guards place) openVolume := by
  refine guards_assembler_bind fun x himage => ?_
  have hnew (image : String) : Within (State.Guards place) (do
      let content ← session (Build.query (·.read x.image))
      let volume ← session (Build.ofExcept .image (Fat.Volume.ofContent image content false))
      update fun a => { a with volume }
      return volume) := by
    refine (guards_session (Build.guards_query _)).bind fun content => ?_
    refine (guards_session (Build.guards_ofExcept _ _)).bind fun volume => ?_
    exact Within.bind (guards_update fun _ => rfl) fun _ => within_pure _
  dsimp only
  cases x.volume with
  | some volume =>
    split
    · exact (guards_session (within_throw _)).bind fun _ => within_pure _
    · exact within_pure _
  | none =>
    split
    · exact (guards_session (within_throw _)).bind fun _ => hnew _
    · exact hnew _

theorem guards_edit (v : Fat.Volume) (change : Edit α) :
    Within (State.Guards place) (edit v change) := by
  refine guards_assembler_bind fun x himage => ?_
  refine (guards_session (Build.guards_query _)).bind fun content => ?_
  refine (guards_session (Build.guards_write (.inl himage))).bind fun _ => ?_
  refine Within.bind (guards_update fun _ => rfl) fun _ => ?_
  exact guards_session (Build.guards_ofExcept _ _)

theorem guards_makeDirectory (path : String) :
    Within (State.Guards place) (Assembly.makeDirectory path) :=
  guards_openVolume.bind fun v => (guards_edit v _).bind fun _ => guards_log _

theorem guards_recordMissing (m : MissingEntry) : Within (State.Guards place) (recordMissing m) :=
  guards_update fun _ => rfl

theorem guards_copyFile (source : Path) (dest : String) :
    Within (State.Guards place) (Assembly.copyFile source dest) := by
  have hmissing : ∀ (m : MissingEntry) (message : String), Within (State.Guards place) (do
      recordMissing m
      session (Build.log message)
      pure false) := fun m message =>
    (guards_recordMissing m).bind fun _ => (guards_log _).bind fun _ => within_pure _
  rw [copyFile_eq]
  refine guards_openVolume.bind fun v => ?_
  refine (guards_session (Build.guards_query _)).bind fun isFile => ?_
  split
  · split
    · refine (guards_session (Build.guards_query _)).bind fun content => ?_
      refine (guards_edit v _).bind fun _ => ?_
      refine Within.bind (guards_update fun _ => rfl) fun _ => ?_
      exact (guards_log _).bind fun _ => within_pure _
    · exact hmissing _ _
  · exact hmissing _ _

theorem guards_sealImage : Within (State.Guards place) sealImage := by
  refine guards_assembler_bind fun x himage => ?_
  have hseal : Within (State.Guards place)
      (update fun a => { a with volume := none, sealed := true }) :=
    guards_update fun _ => rfl
  cases x.volume with
  | none => exact hseal
  | some volume =>
    refine (guards_session (Build.guards_query _)).bind fun content => ?_
    exact (guards_session (Build.guards_write (.inl himage))).bind fun _ => hseal

theorem guards_fill (own suite : List BinaryEntry) :
    Within (State.Guards place) (fill own suite) := by
  refine guards_assembler_bind fun x _ => ?_
  refine (Within.forIn _ fun d _ => guards_makeDirectory d).bind fun _ => ?_
  exact Within.bind (Within.forIn (own ++ suite) fun entry _ =>
    guards_copyFile entry.source entry.dest) fun _ => within_pure _

theorem guards_complete (own suite : List BinaryEntry) :
    Within (State.Guards place) (complete own suite) := by
  have htell : Within (State.Guards place) tell :=
    guards_assembler_bind fun _ _ => (guards_log _).bind fun _ => within_pure _
  refine Within.bind (Within.tryCatch (guards_fill own suite) fun failure => ?_) fun _ => ?_
  · exact guards_sealImage.bind fun _ => within_throw failure
  · exact guards_sealImage.bind fun _ => htell

/-- An assembly leaves a file alone unless it is the image, whether or not it fails. -/
theorem guards_assemble (own suite : List BinaryEntry) (missing : List MissingEntry) :
    Within (State.Guards place) (Assembly.assemble own suite missing) := by
  rw [assemble_eq]
  refine (guards_log _).bind fun _ => guards_createImage.bind fun _ => ?_
  refine guards_format.bind fun _ => ?_
  exact Within.bind (guards_update fun _ => rfl) fun _ => guards_complete own suite

theorem guards_on {x : Assembler} {assembly : Assembly α} (himage : x.image.Avoids place)
    (h : Within (State.Guards place) assembly) :
    Within (Session.Guards place ∅) (on x assembly) :=
  fun t => (h ⟨x, t⟩ himage).2

end Assembly

end BootImage
