import BootImage.Proofs.Assembly.Sealing
import BootImage.Proofs.Host.Likeness

/-!
# Images that are assembled anew

Assembling starts with an image of zeros. What the image held before is lost, and so is what the
assembler has reported; the marks are taken away. Two assemblies of the same image come to the same
then, however the two assemblers got where they are, if all they are asked for later is the same
too. That is the tree, which is alike as soon as the image is stored in both, and one thing more:
the volume that is open. Making an image does not close it. So an assembler in which a volume is
open goes on with that volume, in an image that it is not of, and one in which none is open does
what a new one does.

## Main definitions

* `Session.Like`: two sessions on trees that are alike.
* `Session.SameBut`: two sessions with nothing but the image between them.
* `Assembler.renewed`: an assembler once its image was made.
* `Assembly.State.Like`: two assemblies of the same image, on trees that are alike.
* `Assembly.State.Makes`: an assembly goes as far as making its image.

## Main results

* `Assembly.run_prepare`: what is left of a state when the image was made.
* `Assembly.relates_prepare`: trees are alike when the image was made.
* `Assembly.like_complete`: what is done later does the same to both.
* `Assembly.State.assemble_after`: an assembly after any calls, and one on a new assembler.
-/

namespace BootImage

open Host (Path FileTree Fault Coincide)
open Fat (Edit)

/-! ### Sessions that are alike -/

/-- Two sessions in which the same is logged, on trees that are alike but for the bytes of files at
the places `away`. -/
structure Session.Like (away : Set (List String)) (t t' : Session) : Prop where
  tree : t.tree.Like away t'.tree
  clock : t.clock = t'.clock
  logFile : t.logFile = t'.logFile

theorem Session.Like.mono {away away' : Set (List String)} {t t' : Session} (h : t.Like away t')
    (haway : away ⊆ away') : t.Like away' t' :=
  ⟨h.tree.mono haway, h.clock, h.logFile⟩

namespace Build

variable {α : Type} {away : Set (List String)}

theorem respects_ofExcept {ε : Type} (cause : ε → Cause) (r : Except ε α) :
    Respects (Session.Like away) (ofExcept cause r) := by
  cases r with
  | error e => exact respects_throw _
  | ok a => exact respects_pure a

theorem respects_query {f : FileTree → Except Fault α}
    (hf : ∀ t t', FileTree.Like away t t' → f t = f t') :
    Respects (Session.Like away) (query f) := by
  intro t t' h
  refine ⟨_, t, t', run_query f t, ?_, h⟩
  rw [run_query, hf _ _ h.tree]

/-- A change is related to itself if its outcomes on the two trees are. -/
theorem relates_change {R S E : Session → Session → Prop} {f : FileTree → Except Fault FileTree}
    (hf : ∀ t t', R t t' → Coincide (fun u u' => S { t with tree := u } { t' with tree := u' })
      (f t.tree) (f t'.tree)) (hE : ∀ t t', R t t' → E t t') : Relates R S E (change f) := by
  intro t t' h
  have hrun := run_change f t
  have hrun' := run_change f t'
  have hcoincide := hf t t' h
  generalize f t.tree = r at hrun hcoincide
  generalize f t'.tree = r' at hrun' hcoincide
  cases hcoincide with
  | error fault => exact .inr ⟨_, _, _, hrun, hrun', hE t t' h⟩
  | ok hS => exact .inl ⟨_, _, _, hrun, hrun', hS⟩

theorem respects_change {f : FileTree → Except Fault FileTree}
    (hf : ∀ t t', FileTree.Like away t t' → Coincide (FileTree.Like away) (f t) (f t')) :
    Respects (Session.Like away) (change f) := by
  refine Relates.respects (relates_change (fun t t' h => ?_) fun _ _ => id)
  exact (hf _ _ h.tree).mono fun _ _ htree => ⟨htree, h.clock, h.logFile⟩

theorem respects_makeDirectories (p : Path) :
    Respects (Session.Like away) (makeDirectories p) := by
  intro t t' h
  obtain ⟨hresult, htree⟩ := h.tree.makeDirectories p
  refine ⟨_, _, { t' with tree := _ }, run_makeDirectories p t, ?_, htree, h.clock, h.logFile⟩
  rw [run_makeDirectories, hresult]

theorem respects_log (message : String) : Respects (Session.Like away) (log message) := by
  refine Respects.read_bind (g := id) (fun _ => rfl) fun s s' h => ⟨?_, ?_⟩
  · have hprint : ∀ line, Respects (Session.Like away) (print line) := fun line t t' h =>
      ⟨_, _, _, rfl, rfl, h.tree, h.clock, h.logFile⟩
    refine (hprint _).bind fun _ => ?_
    generalize id s = u
    cases u.logFile with
    | none => exact respects_pure _
    | some file =>
      refine (respects_makeDirectories _).bind fun _ => respects_change fun t t' h => h.write ?_
      refine fun place hplace => ⟨fun _ hmem _ => hmem, fun haway => ?_⟩
      have hfind := h.find? file
      generalize t.find? file = a at hfind ⊢
      generalize t'.find? file = b at hfind ⊢
      cases hfind with
      | none => rfl
      | directory => rfl
      | file _ _ hc =>
        simp only
        rw [hc]
        intro other hother
        cases hplace.symm.trans hother
        exact haway
  · simp only [id, h.clock, h.logFile]

theorem respects_read (p : Path) : Respects (Session.Like ∅) (query (·.read p)) :=
  respects_query fun _ _ h => h.read (by simp)

theorem respects_isFile (p : Path) : Respects (Session.Like away) (isFile p) :=
  respects_query fun _ _ h => h.isFile p

theorem respects_write (p : Path) (c : Content) :
    Respects (Session.Like away) (change (·.write p c)) :=
  respects_change fun _ _ h => h.write fun _ _ => ⟨fun _ hmem _ => hmem, fun _ => rfl⟩

end Build

/-- Two sessions with nothing but the image at a path between them: it has other bytes, or, unless
lines are kept in a file, it is in one of them only. -/
structure Session.SameBut (image : Path) (t t' : Session) : Prop where
  clock : t.clock = t'.clock
  logFile : t.logFile = t'.logFile
  tree : t.tree.Like {place | t.tree.locate image = .ok place} t'.tree ∨
    t.logFile = none ∧ t.tree.Beside image t'.tree

theorem respects_formatFile (image : Path) (sectorsPerCluster : Int) (label : String) (id : Int) :
    Respects (Session.Like ∅) (formatFile image sectorsPerCluster label id) := by
  refine (Build.respects_isFile image).bind fun isFile => ?_
  split
  · refine (Build.respects_read image).bind fun content => ?_
    refine (Build.respects_ofExcept _ _).bind fun formatted => ?_
    exact (Build.respects_write image _).bind fun _ => respects_pure _
  · exact respects_throw_bind _ _

/-- The assembler once its image was made. A volume that is open stays open. -/
def Assembler.renewed (x : Assembler) : Assembler :=
  { x with formatted := false, sealed := false, report := { image := x.image } }

namespace Assembly

variable {α : Type}

/-! ### Making the image -/

/-- Stores a file of zeros. -/
def storeZeros (x : Assembler) : Build Unit := do
  Build.makeDirectories x.image.parent
  Build.change (·.write x.image (Content.zeros x.capacity.toNat))
  Build.log s!"[OK]    {x.image.name} — {x.blockCount} × {x.blockSize} = {x.capacity} bytes"

/-- What is done until the image is there. -/
def prepare (x : Assembler) : Build Unit := do
  announce
  if x.blockSize ≤ 0 ∨ x.blockCount ≤ 0 then Build.fail (.imageSize x.blockCount x.blockSize)
  storeZeros x

theorem run_prepare (s : State) :
    (do session announce; Assembly.createImage : Assembly Unit).run.run s =
      match (prepare s.assembler).run.run s.session with
      | (.ok u, t) => (.ok u, ⟨s.assembler.renewed, t⟩)
      | (.error e, t) => (.error e, ⟨s.assembler, t⟩) := by
  have hannounce := run_session announce s
  rw [prepare]
  cases hrun : announce.run.run s.session with
  | mk result t =>
    rw [hrun] at hannounce
    cases result with
    | error e => rw [run_bind_error _ hannounce, run_bind_error _ hrun]
    | ok u =>
      rw [run_bind_ok _ hannounce, run_bind_ok _ hrun, Assembly.createImage, run_assembler_bind]
      simp only
      by_cases hsize : s.assembler.blockSize ≤ 0 ∨ s.assembler.blockCount ≤ 0
      · rw [if_pos hsize, if_pos hsize]
        rfl
      · rw [if_neg hsize, if_neg hsize]
        have hstore := run_session (storeZeros s.assembler) ⟨s.assembler, t⟩
        cases hzeros : (storeZeros s.assembler).run.run t with
        | mk result t' =>
          rw [hzeros] at hstore
          cases result with
          | error e => exact run_bind_error _ hstore
          | ok u => exact run_bind_ok _ hstore

/-- Sessions that are told apart by the image only are alike once it is stored. -/
theorem relates_prepare {x : Assembler} {R E : Session → Session → Prop}
    (hlog : ∀ message, Respects R (Build.log message))
    (hmake : Respects R (Build.makeDirectories x.image.parent))
    (hstored : ∀ t t', R t t' → (t.clock = t'.clock ∧ t.logFile = t'.logFile) ∧
      ∀ c, Coincide (FileTree.Like ∅) (t.tree.write x.image c) (t'.tree.write x.image c))
    (hR : ∀ t t', R t t' → E t t') (hE : ∀ t t', Session.Like ∅ t t' → E t t') :
    Relates R (Session.Like ∅) E (prepare x) := by
  have hwrite : ∀ c, Relates R (Session.Like ∅) E (Build.change (·.write x.image c)) := fun c =>
    Build.relates_change (fun t t' h => ((hstored t t' h).2 c).mono fun _ _ htree =>
      ⟨htree, (hstored t t' h).1.1, (hstored t t' h).1.2⟩) hR
  have hstore : Relates R (Session.Like ∅) E (storeZeros x) := by
    refine (hmake.relates (fun _ _ => id) hR).bind fun _ => (hwrite _).bind fun _ => ?_
    exact (Build.respects_log _).relates (fun _ _ => id) hE
  refine ((hlog _).relates (fun _ _ => id) hR).bind fun _ => ?_
  split
  · exact relates_throw_bind _ _ hR
  · exact hstore

/-- Where the trees differ is where the image goes. -/
theorem relates_prepare_like (x : Assembler) {away : Set (List String)} : Relates
    (fun t t' => t.Like away t' ∧ ∀ place ∈ away, t.tree.locate x.image = .ok place)
    (Session.Like ∅) (Session.Like away) (prepare x) := by
  -- The image goes to the same place until it is stored: nothing before removes a directory.
  have hstays : ∀ {b : Build Unit}, Within Session.Retains b →
      Within (fun t t' : Session => (∀ place ∈ away, t.tree.locate x.image = .ok place) →
        ∀ place ∈ away, t'.tree.locate x.image = .ok place) b := fun hb =>
    hb.mono fun _ _ hretains hplace place hmem => hretains.locate _ _ (hplace place hmem)
  refine relates_prepare
    (fun message => (Build.respects_log message).and (hstays (Build.retains_log message)))
    ((Build.respects_makeDirectories _).and (hstays (Build.retains_makeDirectories _)))
    ?_ (fun _ _ h => h.1) fun _ _ h => h.mono (Set.empty_subset away)
  rintro t t' ⟨h, hplaces⟩
  refine ⟨⟨h.clock, h.logFile⟩, fun c => h.tree.write fun place hplace => ?_⟩
  refine ⟨fun other hother hne => ?_, fun _ => rfl⟩
  cases (hplaces other hother).symm.trans hplace
  exact absurd rfl hne

/-- The image may be in one of the trees only. -/
theorem relates_prepare_beside (x : Assembler) : Relates
    (fun t t' => (t.clock = t'.clock ∧ t.logFile = none ∧ t'.logFile = none) ∧
      t.tree.Beside x.image t'.tree)
    (Session.Like ∅) (fun _ _ => True) (prepare x) := by
  refine relates_prepare (fun message => ?_) ?_ ?_ (fun _ _ _ => trivial) fun _ _ _ => trivial
  -- A line is only printed.
  · refine Respects.read_bind (g := id) (fun _ => rfl) fun s s' h => ⟨?_, ?_⟩
    · simp only [id, h.1.2.1]
      exact Respects.bind (fun t t' h => ⟨_, _, _, rfl, rfl, h⟩) fun _ => respects_pure _
    · simp only [id, h.1.1, h.1.2.1, h.1.2.2]
  -- The directory of the image is there in both trees.
  · rintro t t' ⟨h, hbeside⟩
    have hrun := Build.run_makeDirectories x.image.parent t
    have hrun' := Build.run_makeDirectories x.image.parent t'
    rw [hbeside.parent.1] at hrun
    rw [hbeside.parent.2] at hrun'
    exact ⟨_, _, _, hrun, hrun', h, hbeside⟩
  · rintro t t' ⟨⟨hclock, hfile, hfile'⟩, hbeside⟩
    exact ⟨⟨hclock, hfile.trans hfile'.symm⟩, hbeside.write⟩

/-! ### Assemblies that are alike -/

/-- Two assemblies of the same image, in sessions that are alike. -/
structure State.Like (s s' : State) : Prop where
  assembler : s.assembler = s'.assembler
  session : s.session.Like ∅ s'.session

theorem like_assembler : Respects State.Like assembler := by
  rintro ⟨x, t⟩ ⟨x', t'⟩ ⟨rfl, h⟩
  exact ⟨_, _, _, rfl, rfl, rfl, h⟩

theorem like_update (f : Assembler → Assembler) : Respects State.Like (update f) := by
  rintro ⟨x, t⟩ ⟨x', t'⟩ ⟨rfl, h⟩
  exact ⟨_, _, _, rfl, rfl, rfl, h⟩

theorem like_session {b : Build α} (hb : Respects (Session.Like ∅) b) :
    Respects State.Like (session b) := by
  rintro ⟨x, t⟩ ⟨x', t'⟩ ⟨rfl, h⟩
  obtain ⟨result, u, u', hrun, hrun', hu⟩ := hb t t' h
  refine ⟨result, ⟨x, u⟩, ⟨x, u'⟩, ?_, ?_, rfl, hu⟩
  · rw [run_session, hrun]
  · rw [run_session, hrun']

theorem like_log (message : String) : Respects State.Like (session (Build.log message)) :=
  like_session (Build.respects_log message)

theorem like_read (p : Path) : Respects State.Like (session (Build.query (·.read p))) :=
  like_session (Build.respects_read p)

theorem like_isFile (p : Path) : Respects State.Like (session (Build.isFile p)) :=
  like_session (Build.respects_isFile p)

theorem like_write (p : Path) (c : Content) :
    Respects State.Like (session (Build.change (·.write p c))) :=
  like_session (Build.respects_write p c)

theorem like_ofExcept {ε : Type} (cause : ε → Cause) (r : Except ε α) :
    Respects State.Like (session (Build.ofExcept cause r)) :=
  like_session (Build.respects_ofExcept cause r)

theorem like_format : Respects State.Like format := by
  refine like_assembler.bind fun a => (like_session (respects_formatFile _ _ _ _)).bind fun g => ?_
  exact (like_update _).bind fun _ => (like_log _).bind fun _ => respects_pure g

theorem like_openVolume : Respects State.Like openVolume := by
  refine like_assembler.bind fun a => ?_
  have hfail : Respects State.Like (session
      (Build.fail (.image (.sealed (toString a.image))) : Build PUnit)) :=
    like_session (respects_throw _)
  cases a.volume with
  | some v =>
    dsimp only
    split
    · exact hfail.bind fun _ => respects_pure v
    · exact respects_pure v
  | none =>
    have hopen : Respects State.Like (do
        let content ← session (Build.query (·.read a.image))
        let volume ← session
          (Build.ofExcept .image (Fat.Volume.ofContent (toString a.image) content false))
        update fun a => { a with volume := some volume }
        return volume) :=
      (like_read a.image).bind fun content => (like_ofExcept _ _).bind fun v =>
        (like_update _).bind fun _ => respects_pure v
    dsimp only
    split
    · exact hfail.bind fun _ => hopen
    · exact hopen

theorem like_edit (v : Fat.Volume) (change : Edit α) : Respects State.Like (edit v change) := by
  refine like_assembler.bind fun a => (like_read a.image).bind fun content => ?_
  exact (like_write a.image _).bind fun _ => (like_update _).bind fun _ => like_ofExcept _ _

theorem like_makeDirectory (path : String) : Respects State.Like (Assembly.makeDirectory path) :=
  like_openVolume.bind fun v => (like_edit v _).bind fun _ => like_log _

theorem like_copyFile (source : Path) (dest : String) :
    Respects State.Like (Assembly.copyFile source dest) := by
  have hmissing : ∀ (m : MissingEntry) (message : String), Respects State.Like (do
      recordMissing m
      session (Build.log message)
      pure false) := fun m message =>
    (like_update _).bind fun _ => (like_log message).bind fun _ => respects_pure false
  rw [copyFile_eq]
  refine like_openVolume.bind fun v => (like_isFile source).bind fun isFile => ?_
  split
  · split
    · refine (like_read source).bind fun content => (like_edit v _).bind fun _ => ?_
      exact (like_update _).bind fun _ => (like_log _).bind fun _ => respects_pure true
    · exact hmissing _ _
  · exact hmissing _ _

theorem like_sealImage : Respects State.Like sealImage := by
  refine like_assembler.bind fun a => ?_
  cases a.volume with
  | none => exact like_update _
  | some v =>
    refine (like_read a.image).bind fun content => ?_
    exact (like_write a.image _).bind fun _ => like_update _

theorem like_fill (own suite : List BinaryEntry) : Respects State.Like (fill own suite) := by
  refine like_assembler.bind fun a => ?_
  refine (Respects.forIn _ fun d _ => like_makeDirectory d).bind fun _ => ?_
  exact Respects.bind (Respects.forIn (own ++ suite) fun entry _ =>
    like_copyFile entry.source entry.dest) fun _ => respects_pure _

theorem like_tell : Respects State.Like tell :=
  like_assembler.bind fun _ => (like_log _).bind fun _ => respects_pure _

theorem like_complete (own suite : List BinaryEntry) :
    Respects State.Like (complete own suite) := by
  refine Respects.bind (Respects.tryCatch (like_fill own suite) fun failure => ?_) fun _ => ?_
  · exact like_sealImage.bind fun _ => respects_throw failure
  · exact like_sealImage.bind fun _ => like_tell

/-- What is done to an image of zeros. -/
theorem like_assemble (own suite : List BinaryEntry) (missing : List MissingEntry) :
    Respects State.Like (do
      let _ ← format
      update fun a =>
        { a with report := { a.report with missing := a.report.missing ++ missing } }
      complete own suite) :=
  like_format.bind fun _ => (like_update _).bind fun _ => like_complete own suite

/-! ### Two assemblies -/

/-- An assembly goes as far as making its image. -/
def State.Makes (s : State) : Prop :=
  ∃ u, Yields (do Assembly.session announce; createImage : Assembly Unit) s () u

/-- Sessions with nothing but the image between them are alike once it is there, and before if it is
the same. -/
theorem exists_relates_prepare {x : Assembler} {t t' : Session} (h : t.SameBut x.image t') :
    ∃ R E : Session → Session → Prop, R t t' ∧ Relates R (Session.Like ∅) E (prepare x) ∧
      (t.tree.read x.image = t'.tree.read x.image → ∀ u u', E u u' → u.Like ∅ u') := by
  by_cases hread : t.tree.read x.image = t'.tree.read x.image
  · have htree : t.tree.Like ∅ t'.tree := by
      rcases h.tree with hlike | ⟨-, hbeside⟩
      · exact hlike.of_read hread
      · exact hbeside.of_read hread
    exact ⟨_, _, ⟨⟨htree, h.clock, h.logFile⟩, by simp⟩, relates_prepare_like x, fun _ _ _ => id⟩
  · rcases h.tree with hlike | ⟨hfile, hbeside⟩
    · exact ⟨_, _, ⟨⟨hlike, h.clock, h.logFile⟩, fun _ => id⟩, relates_prepare_like x,
        fun hsame => absurd hsame hread⟩
    · exact ⟨_, _, ⟨⟨h.clock, hfile, h.logFile ▸ hfile⟩, hbeside⟩, relates_prepare_beside x,
        fun hsame => absurd hsame hread⟩

/-- Two assemblies of the same image come to the same, whatever the image held. If they fail before
it is made, it stays what it was; then it is the same in the end if it was so at the start. -/
theorem State.assemble_alike {s s' : State}
    (hassembler : s.assembler.renewed = s'.assembler.renewed)
    (hsame : s.session.SameBut s.assembler.image s'.session) (own suite : List BinaryEntry)
    (missing : List MissingEntry) :
    ∃ result u u', (assemble own suite missing).run.run s = (result, u) ∧
      (assemble own suite missing).run.run s' = (result, u') ∧
      (∀ report, result = .ok report → s'.Makes) ∧
      (s'.Makes → u.assembler = u'.assembler) ∧
      (s'.Makes ∨ s.session.tree.read s.assembler.image = s'.session.tree.read s.assembler.image →
        ∀ p, u.session.tree.read p = u'.session.tree.read p) := by
  have hreads : ∀ {u u' : Session}, u.Like ∅ u' → ∀ p, u.tree.read p = u'.tree.read p :=
    fun hlike p => hlike.tree.read (by simp)
  have hrun := run_prepare s
  have hrun' := run_prepare s'
  have hprepare : prepare s'.assembler = prepare s.assembler :=
    (congrArg prepare hassembler.symm : prepare s'.assembler.renewed = prepare s.assembler.renewed)
  obtain ⟨R, E, hR, hrelates, hE⟩ := exists_relates_prepare hsame
  rw [assemble_eq, ← bind_assoc]
  rw [hprepare] at hrun'
  obtain ⟨a, t, t', ht, ht', hlike⟩ | ⟨e, t, t', ht, ht', hfail⟩ := hrelates s.session s'.session hR
  -- The image is there, and the two are alike from then on.
  · rw [ht] at hrun
    rw [ht'] at hrun'
    obtain ⟨result, u, u', hu, hu', hulike⟩ :=
      like_assemble own suite missing ⟨s.assembler.renewed, t⟩ ⟨s'.assembler.renewed, t'⟩
        ⟨hassembler, hlike⟩
    exact ⟨result, u, u', (run_bind_ok _ hrun).trans hu, (run_bind_ok _ hrun').trans hu',
      fun _ _ => ⟨_, hrun'⟩, fun _ => hulike.assembler, fun _ => hreads hulike.session⟩
  -- Both failed before.
  · rw [ht] at hrun
    rw [ht'] at hrun'
    have hnone : ¬ s'.Makes := by
      rintro ⟨u, hmakes⟩
      cases hmakes.symm.trans hrun'
    refine ⟨.error e, _, _, run_bind_error _ hrun, run_bind_error _ hrun', fun _ h => (by cases h),
      fun hmakes => absurd hmakes hnone, fun h => ?_⟩
    rcases h with hmakes | hread
    · exact absurd hmakes hnone
    · exact hreads (hE hread _ _ hfail)

end Assembly

end BootImage
