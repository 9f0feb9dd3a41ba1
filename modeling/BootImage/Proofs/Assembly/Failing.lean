import BootImage.Proofs.Assembly.Guarding
import BootImage.Proofs.Assembly.Replaying

/-!
# Assemblies that fail

An assembly can fail at any directory and at any file. The image is sealed all the same, with what
is in the volume at that point. A file that is not copied leaves no trace in the volume, and a
directory that is not made leaves the directories above it that were made. So the volume is one that
calls come to which all succeed, and the image is whole and holds what these calls have put into it.

## Main definitions

* `Assembly.Stops`: what had succeeded when an assembly failed.

## Main results

* `Assembly.State.Tracks.stopped`: the calls of an assembly that failed.
* `Assembly.assemble_failed`: the image that an assembly leaves when it failed.
-/

namespace BootImage

open Host (Path FileTree)
open Fat (Disk)

theorem BinaryEntry.on_call_error {tree : FileTree} {e : BinaryEntry} {d : Disk} {error : Fat.Error}
    (hlive : d.Live) (h : ((e.call tree).on d).1 = .error error) : ((e.call tree).on d).2 = d := by
  have hsupplied := e.supplied_call tree
  obtain ⟨content, size, hcall⟩ : ∃ content size, e.call tree = .writeFile e.dest content size := by
    rw [call]
    split
    · exact ⟨_, _, rfl⟩
    · exact ⟨_, _, rfl⟩
  rw [hcall] at h hsupplied ⊢
  exact hlive.exactChecks.failed _ _ _ _ _ hsupplied (Prod.ext h rfl)

namespace Assembly

variable {s s' s₁ : State} {t : Session} {place : List String} {d d' : Disk}
  {own suite : List BinaryEntry} {failure : Failure}

/-- What had succeeded when an assembly failed: the directories that were made and the files that
were copied. If it failed at a directory, then no file was copied, and of the path of that directory
the names before one were made; the directories with this one name more are told too. If it failed
at a file, then all directories were made, and the files before it were copied or skipped. -/
inductive Stops (paths : List String) (entries : List BinaryEntry) (tree : FileTree) :
    List String → Option (List String) → List BinaryEntry → Prop
  | directory {before after names rest : List String} {path name : String}
      (hpaths : paths = before ++ path :: after)
      (hpath : Fat.splitPath path = names ++ name :: rest) :
      Stops paths entries tree (before ++ [Disk.pathText names])
        (some (before ++ [Disk.pathText (names ++ [name])])) []
  | copy {before after : List BinaryEntry} {e : BinaryEntry}
      (hentries : entries = before ++ e :: after) :
      Stops paths entries tree paths none (before.filter (·.canCopy tree))

/-- Where directories and files that fail have come to. -/
theorem fill_error (h : (fill own suite).run.run s = (.error failure, s')) :
    (∃ before path after s₁, s.assembler.directories = before ++ path :: after ∧
      Yields (each before Assembly.makeDirectory) s PUnit.unit s₁ ∧
      (Assembly.makeDirectory path).run.run s₁ = (.error failure, s')) ∨
    ∃ before e after s₁ s₂, own ++ suite = before ++ e :: after ∧
      Yields (each s.assembler.directories Assembly.makeDirectory) s PUnit.unit s₁ ∧
      Yields (each before fun e => Assembly.copyFile e.source e.dest) s₁ PUnit.unit s₂ ∧
      (Assembly.copyFile e.source e.dest).run.run s₂ = (.error failure, s') := by
  rw [fill_eq, run_assembler_bind] at h
  cases hmake : (each s.assembler.directories Assembly.makeDirectory).run.run s with
  | mk result s₁ =>
    cases result with
    | error e =>
      rw [run_bind_error _ hmake] at h
      cases h
      exact .inl (exists_of_each_error hmake)
    | ok u =>
      rw [run_bind_ok _ hmake] at h
      obtain ⟨before, e, after, s₂, hentries, hbefore, he⟩ := exists_of_each_error h
      exact .inr ⟨before, e, after, s₁, s₂, hentries, hmake, hbefore, he⟩

namespace State.Tracks

/-- A directory that fails is made up to some name, with which it fails in the same way. -/
theorem stopped_directory {paths : List String} {path : String} (h : s.Tracks t place d)
    (hmake : Yields (each paths Assembly.makeDirectory) s PUnit.unit s₁)
    (hfail : (Assembly.makeDirectory path).run.run s₁ = (.error failure, s')) :
    ∃ names name rest d', Fat.splitPath path = names ++ name :: rest ∧
      s.Filled t place d (paths ++ [Disk.pathText names]) [] s' d' ∧
      (place ∉ t.logPlaces → ∃ d₁ error, d.Does (paths.map .makeDirectory) d₁ ∧
        ((Fat.Call.makeDirectory (Disk.pathText (names ++ [name]))).on d₁).1 = .error error ∧
          failure = ⟨.image error, none⟩) := by
  obtain ⟨d₁, hfilled⟩ := State.Filled.directories h hmake
  obtain ⟨s₂, d₂, hrun, h₂, hsame, v, hassembler₂⟩ := hfilled.tracks.makeDirectory path
  obtain ⟨hresult, rfl⟩ := Prod.mk.inj (hrun.symm.trans hfail)
  have hbefore : place ∉ t.logPlaces → d.Does (paths.map .makeDirectory) d₁ := by
    intro haside
    have hdoes := hfilled.does haside (by simp)
    rwa [List.map_nil, List.append_nil] at hdoes
  cases hcall : ((Fat.Call.makeDirectory path).on d₁).1 with
  | ok u =>
    rw [hcall] at hresult
    cases hresult
  | error e =>
    rw [hcall] at hresult
    cases hresult
    obtain ⟨names, name, rest, hpath, hdoes, hnext⟩ :=
      hfilled.tracks.live.exists_makeDirectory (Prod.ext hcall rfl)
    obtain ⟨volume, report, hassembler⟩ := hfilled.assembler
    refine ⟨names, name, rest, d₂, hpath, ⟨h₂, ⟨some v, report, ?_⟩, ?_, ?_, by simp, by simp,
      fun haside _ => ?_⟩, fun haside => ⟨d₁, e, hbefore haside, by rw [hnext], rfl⟩⟩
    · rw [hassembler₂, hassembler]
    · simp [hassembler₂]
    · rw [hassembler₂]
      exact hfilled.reported
    · rw [List.map_nil, List.append_nil, List.map_append, Disk.does_append, hsame haside]
      exact ⟨d₁, hbefore haside, hdoes⟩

/-- A file that fails leaves the disk as it is. -/
theorem stopped_copy {paths : List String} {entries : List BinaryEntry} {e : BinaryEntry}
    {s₂ : State} (h : s.Tracks t place d)
    (hmake : Yields (each paths Assembly.makeDirectory) s PUnit.unit s₁)
    (hcopy : Yields (each entries fun e => Assembly.copyFile e.source e.dest) s₁ PUnit.unit s₂)
    (hfail : (Assembly.copyFile e.source e.dest).run.run s₂ = (.error failure, s')) :
    ∃ d', s.Filled t place d paths (entries.filter (·.canCopy t.tree)) s' d' ∧
      s'.assembler.volume ≠ none := by
  obtain ⟨d₂, hfilled⟩ := h.filled hmake hcopy
  obtain ⟨result, s₃, d₃, hrun, h₃, ⟨v, report₃, hassembler₃⟩, hfailed, hskipped, hcall⟩ :=
    hfilled.tracks.copyFile e
  obtain ⟨rfl, rfl⟩ := Prod.mk.inj (hrun.symm.trans hfail)
  have hopened : s₃.assembler.volume ≠ none := by simp [hassembler₃]
  have hsame : place ∉ t.logPlaces → d₃ = d₂ := by
    intro haside
    cases hcan : e.canCopy s₂.session.tree with
    | false => exact (hskipped hcan).2 haside
    | true =>
      obtain ⟨hresult, hcalled⟩ := hcall hcan
      rw [hcalled haside]
      cases hon : ((e.call s₂.session.tree).on d₂).1 with
      | error error => exact BinaryEntry.on_call_error hfilled.tracks.live hon
      | ok u =>
        rw [hon] at hresult
        cases hresult
  obtain ⟨volume, report, hassembler⟩ := hfilled.assembler
  refine ⟨d₃, ⟨h₃, ⟨some v, report₃, ?_⟩, fun _ => hopened, ?_, hfilled.can, hfilled.avoids,
    fun haside hapart => ?_⟩, hopened⟩
  · rw [hassembler₃, hassembler]
  · rw [hfailed _ rfl]
    exact hfilled.reported
  · rw [hsame haside]
    exact hfilled.does haside hapart

/-- An assembly that failed has come to the disk of the calls that had succeeded. -/
theorem stopped (h : s.Tracks t place d)
    (hfail : (fill own suite).run.run s = (.error failure, s')) : ∃ directories further copied d',
      Stops s.assembler.directories (own ++ suite) t.tree directories further copied ∧
        s.Filled t place d directories copied s' d' ∧ s'.assembler.volume ≠ none ∧
        (place ∉ t.logPlaces → ∀ paths ∈ further, ∃ before path d₁ error, paths = before ++ [path] ∧
          d.Does (before.map .makeDirectory) d₁ ∧
          ((Fat.Call.makeDirectory path).on d₁).1 = .error error ∧
          failure = ⟨.image error, none⟩) := by
  obtain ⟨before, path, after, s₁, hpaths, hbefore, hpath⟩ |
    ⟨before, e, after, s₁, s₂, hentries, hmake, hbefore, he⟩ := fill_error hfail
  · obtain ⟨names, name, rest, d', hsplit, hfilled, hnext⟩ := h.stopped_directory hbefore hpath
    refine ⟨_, _, _, d', .directory hpaths hsplit, hfilled, hfilled.opened (by simp), ?_⟩
    rintro haside _ ⟨⟩
    obtain ⟨d₁, error, hdoes, hcall, hfailure⟩ := hnext haside
    exact ⟨before, _, d₁, error, rfl, hdoes, hcall, hfailure⟩
  · obtain ⟨d', hfilled, hopened⟩ := h.stopped_copy hmake hbefore he
    exact ⟨_, _, _, d', .copy hentries, hfilled, hopened, by rintro - _ ⟨⟩⟩

end State.Tracks

/-- An assembly that fails after the image was formatted has come to the disk of the calls that had
succeeded, and has sealed the image then. -/
theorem Formats.exists_stopped {x : Assembler} {g : Fat.Geometry} {missing : List MissingEntry}
    {u : State} (h : Formats x t g s place d)
    (hfail : (assemble own suite missing).run.run ⟨x, t⟩ = (.error failure, u)) :
    ∃ s₁ directories further copied d' content,
      Stops x.directories (own ++ suite) s.session.tree directories further copied ∧
        (s.withMissing missing).Filled s.session place d directories copied s₁ d' ∧
        s₁.assembler.volume ≠ none ∧
        (place ∉ s.session.logPlaces → ∀ paths ∈ further, ∃ before path d₁ error,
          paths = before ++ [path] ∧ d.Does (before.map .makeDirectory) d₁ ∧
          ((Fat.Call.makeDirectory path).on d₁).1 = .error error ∧
          failure = ⟨.image error, none⟩) ∧
        s₁.Ends s.session place d' content u := by
  rw [run_assemble h.new] at hfail
  cases hfill : (fill own suite).run.run (s.withMissing missing) with
  | mk result s₁ =>
    cases result with
    | ok _ =>
      -- Then the report would have been given.
      obtain ⟨s₂, hmake, hcopy⟩ := yields_fill.1 hfill
      obtain ⟨d', hfilled⟩ := (h.withMissing missing).filled hmake hcopy
      obtain ⟨u', content, hcomplete, -⟩ := hfilled.tracks.run_complete hfill
      cases hfail.symm.trans hcomplete
    | error failure' =>
      obtain ⟨directories, further, copied, d', hstops, hfilled, hopened, hfurther⟩ :=
        (h.withMissing missing).stopped hfill
      obtain ⟨u', content, hcomplete, hends⟩ := hfilled.tracks.run_complete hfill
      cases hfail.symm.trans hcomplete
      rw [State.withMissing_directories, h.directories] at hstops
      exact ⟨s₁, directories, further, copied, d', content, hstops, hfilled, hopened, hfurther,
        hends⟩

/-- An assembly that fails after the image was formatted leaves a sealed image that is whole. It can
be opened again, and has the same directories and files as the image of another new assembler that
is given only what had succeeded before the failure, as long as lines are logged neither to the
image nor to a file that was copied. If a directory failed, what had succeeded of it is all that can
be made: with one name more the other assembler fails in the same way. -/
theorem assemble_failed {x : Assembler} (hx : x.anew = x) {g : Fat.Geometry}
    {missing : List MissingEntry} {u : State} (hnew : Yields formatNew ⟨x, t⟩ g s)
    (hfail : (assemble own suite missing).run.run ⟨x, t⟩ = (.error failure, u)) :
    u.Closed ∧ ∃ content, u.session.tree.read x.image = .ok content ∧
      (∃ v, Fat.Volume.ofContent (toString x.image) content false = .ok v ∧
        Disk.Whole ⟨v, content⟩) ∧
      ∃ directories further, Stops x.directories (own ++ suite) s.session.tree directories further
          u.assembler.report.copied ∧
        (u.session.LogsAside (x.image :: u.assembler.report.copied.map (·.source)) →
          (∀ paths ∈ further, ∀ own' suite' missing', ∃ u',
            (assemble own' suite' missing').run.run ⟨{ x with directories := paths }, t⟩ =
              (.error failure, u')) ∧
          ∀ own' suite' missing', own' ++ suite' = u.assembler.report.copied →
            ∃ report u' content',
              Yields (assemble own' suite' missing') ⟨{ x with directories }, t⟩ report u' ∧
              report.copied = u.assembler.report.copied ∧
              u'.session.tree.read x.image = .ok content' ∧
              ∀ readOnly, ∃ v v',
                Fat.Volume.ofContent (toString x.image) content readOnly = .ok v ∧
                Fat.Volume.ofContent (toString x.image) content' readOnly = .ok v' ∧
                Disk.SameTree ⟨v, content⟩ ⟨v', content'⟩) := by
  obtain ⟨place, d, hformats⟩ := exists_formats hx hnew
  obtain ⟨s₁, directories, further, copied, d', content, hstops, hfilled, hopened, hfurther,
    hends⟩ := hformats.exists_stopped hfail
  have himage : s₁.assembler.image = x.image := hfilled.image.trans hformats.image
  have hcopied : u.assembler.report.copied = copied := by
    rw [hends.assembler]
    exact hfilled.reported.trans (by rw [State.withMissing_copied, hformats.copied,
      List.nil_append])
  have hread := hends.read
  have hreads := hfilled.tracks.reads hends.grown
  have hgrown := hends.grown
  rw [State.sealedContent_of_opened hopened] at hgrown
  have hwhole := (hfilled.tracks.live.exists_whole hgrown).2
  rw [himage] at hread hreads
  rw [hfilled.tracks.carries.image, himage] at hwhole
  rw [hcopied]
  refine ⟨⟨by rw [hends.assembler], by rw [hends.assembler]⟩, content, hread, hwhole,
    directories, further, hstops, fun hlog => ?_⟩
  have hlog₀ := hlog.of_like hends.like
  refine ⟨fun paths hmem own' suite' missing' => ?_, fun own' suite' missing' hlists => ?_⟩
  · have haside := hformats.notMem_logPlaces hlog₀
    obtain ⟨before, path, d₁, error, rfl, hdoes, hcall, rfl⟩ := hfurther haside paths hmem
    exact hformats.exists_assemble_error haside hdoes hcall own' suite' missing'
  · obtain ⟨report, u', content', hagain, hreport, hread', -, hreads'⟩ :=
      hformats.exists_replayed hfilled hlog₀ hlists missing'
    refine ⟨report, u', content', hagain, hreport, hread', fun readOnly => ?_⟩
    obtain ⟨v, hv, halike⟩ := hreads readOnly
    obtain ⟨v', hv', halike'⟩ := hreads' readOnly
    exact ⟨v, v', hv, hv', hfilled.tracks.live.sameTree halike halike'⟩

/-- A file is to be copied, and then the image itself, for which there is no room in it. -/
theorem exists_assemble_failed : ∃ (x : Assembler) (t : Session) (g : Fat.Geometry) (s u : State)
      (failure : Failure),
    x.anew = x ∧ Yields formatNew ⟨x, t⟩ g s ∧
    (assemble [⟨⟨"", ["sh"]⟩, "/sh"⟩, ⟨⟨"", ["fs.img"]⟩, "/img"⟩] [] []).run.run ⟨x, t⟩ =
      (.error failure, u) ∧
    u.Closed ∧ ∃ content, u.session.tree.read x.image = .ok content ∧
      (∃ v, Fat.Volume.ofContent (toString x.image) content false = .ok v ∧
        Disk.Whole ⟨v, content⟩) ∧
      ∃ directories report u' content',
        Yields (assemble u.assembler.report.copied [] []) ⟨{ x with directories }, t⟩ report u' ∧
        report.copied = u.assembler.report.copied ∧ u'.session.tree.read x.image = .ok content' ∧
        ∀ readOnly, ∃ v v',
          Fat.Volume.ofContent (toString x.image) content readOnly = .ok v ∧
          Fat.Volume.ofContent (toString x.image) content' readOnly = .ok v' ∧
          Disk.SameTree ⟨v, content⟩ ⟨v', content'⟩ := by
  obtain ⟨t, g, s, d, hformats, -, hfile, -, -⟩ := exists_formats_small []
  have hread := hformats.tracks.carries.read_eq
  have hlocated := hformats.tracks.carries.located
  rw [hformats.image] at hread hlocated
  cases hrun : (assemble [⟨⟨"", ["sh"]⟩, "/sh"⟩, ⟨⟨"", ["fs.img"]⟩, "/img"⟩] [] []).run.run
      ⟨{ image := ⟨"", ["fs.img"]⟩, directories := [] }, t⟩ with
  | mk result u =>
    cases result with
    | ok report =>
      -- What was copied is not the image.
      obtain ⟨g', s', s₂, hnew', hfill⟩ := exists_filled_of_assemble hrun
      cases hformats.new.symm.trans hnew'
      obtain ⟨s₁, hmake, hcopy⟩ := yields_fill.1 hfill
      obtain ⟨d', hfilled⟩ := (hformats.withMissing []).filled hmake hcopy
      have hcan : BinaryEntry.canCopy s.session.tree ⟨⟨"", ["fs.img"]⟩, "/img"⟩ = true := by
        have hname : Fat.isValidName (lastName "/img") = true := by decide
        simp [BinaryEntry.canCopy, BinaryEntry.isThere, FileTree.isFile_of_read hread, hname]
      exact absurd hlocated (hfilled.avoids ⟨⟨"", ["fs.img"]⟩, "/img"⟩
        (List.mem_filter.2 ⟨by simp, hcan⟩) _ rfl)
    | error failure =>
      obtain ⟨hclosed, content, hread', hwhole, directories, further, -, hagain⟩ :=
        assemble_failed rfl hformats.new hrun
      have hnever : Path.Avoids ⟨"", ["fs.img"]⟩ [] := fun current => by
        simp [Path.place, Path.placeFrom]
      have hguards := guards_assemble [⟨⟨"", ["sh"]⟩, "/sh"⟩,
        ⟨⟨"", ["fs.img"]⟩, "/img"⟩] [] []
        ⟨{ image := ⟨"", ["fs.img"]⟩, directories := [] }, t⟩ hnever
      rw [hrun] at hguards
      have hlog : u.session.logFile = none :=
        (hguards.2 (by simp [Session.LogAvoids, hfile])).1.trans hfile
      obtain ⟨-, hreplayed⟩ := hagain (by simp [Session.LogsAside, hlog])
      obtain ⟨report, u', content', hyields, hcopied, hread'', hsame⟩ :=
        hreplayed u.assembler.report.copied [] [] (List.append_nil _)
      exact ⟨_, t, g, s, u, failure, rfl, hformats.new, hrun, hclosed, content, hread', hwhole,
        directories, report, u', content', hyields, hcopied, hread'', hsame⟩

end Assembly

end BootImage
