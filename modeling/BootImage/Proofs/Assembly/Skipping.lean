import BootImage.Proofs.Assembly.Replaying

/-!
# Files that are skipped

A file that is missing, or whose name the image cannot have, is skipped. It is recorded and a line
is logged, but the volume is not called. So the image that is left is the one that is left without
it, to the byte: no cluster was taken and given back, no slot was used, and the next search for a
free cluster starts where it would have started.

There has to be a directory to be made, though. A file that is skipped opens the volume, and closing
one that was opened writes FSInfo, while an assembly with nothing to do leaves the image as it was
formatted.

## Main results

* `Assembly.assemble_copied`: an assembly of the files that were copied leaves the same image.
-/

namespace BootImage

open Host (Path FileTree)
open Fat (Disk)

namespace Assembly

/-- Files that are skipped leave no trace in the image. Another new assembler that is given only the
files that were copied, in the same order, copies all of them and leaves the same image, as long as
lines are logged neither to the image nor to one of those files. -/
theorem assemble_copied {x : Assembler} (hx : x.anew = x) (hdirectories : x.directories ≠ [])
    {own suite own' suite' : List BinaryEntry} {missing missing' : List MissingEntry}
    {t t' : Session} {report : Report}
    (h : Yields (on x (assemble own suite missing)) t report t')
    (hlog : t'.LogsAside (x.image :: report.copied.map (·.source)))
    (hcopied : own' ++ suite' = report.copied) :
    ∃ report' t'' content, Yields (on x (assemble own' suite' missing')) t report' t'' ∧
      report'.copied = report.copied ∧ t'.tree.read x.image = .ok content ∧
      t''.tree.read x.image = .ok content := by
  obtain ⟨u, hassemble, rfl⟩ := yields_on.1 h
  obtain ⟨g, s, s₂, hnew, hfill⟩ := exists_filled_of_assemble hassemble
  obtain ⟨place, d, hformats⟩ := exists_formats hx hnew
  -- What the first assembly did: the calls for the files that it copied.
  obtain ⟨s₁, hmake, hcopy⟩ := yields_fill.1 hfill
  rw [State.withMissing_directories, hformats.directories] at hmake
  obtain ⟨d', hfilled⟩ := (hformats.withMissing missing).filled hmake hcopy
  obtain ⟨u', content, hcomplete, hends⟩ := hfilled.tracks.run_complete hfill
  rw [← run_assemble hnew] at hcomplete
  cases hassemble.symm.trans hcomplete
  have hreport := hfilled.reported
  rw [State.withMissing_copied, hformats.copied, List.nil_append] at hreport
  simp only [hreport] at hlog hcopied ⊢
  -- The same calls are made by the second.
  have hlog₀ := hlog.of_like hends.like
  obtain ⟨report', u'', content', hagain, hreport', hread', hcontent', -⟩ :=
    hformats.exists_replayed hfilled hlog₀ hcopied missing'
  -- Both have opened the volume, and come to the same disk.
  have hcontent : content = Disk.flushed d'.volume d'.content := by
    rw [hends.same (hformats.notMem_logPlaces hlog₀),
      State.sealedContent_of_opened (hfilled.opened hdirectories)]
  have hread := hends.read
  rw [hfilled.image, State.withMissing_image, hformats.image] at hread
  rw [hcontent' hdirectories, ← hcontent] at hread'
  exact ⟨report', u''.session, content, yields_on.2 ⟨u'', hagain, rfl⟩, hreport', hread, hread'⟩

/-- A file is copied, and skipped under a name that the image cannot have. -/
theorem exists_assemble_copied : ∃ (x : Assembler) (t t' : Session) (report : Report),
    x.anew = x ∧ x.directories ≠ [] ∧
    Yields (on x (assemble [⟨⟨"", ["sh"]⟩, "/sh"⟩] [⟨⟨"", ["sh"]⟩, "/a|b"⟩] [])) t report t' ∧
    t'.LogsAside (x.image :: report.copied.map (·.source)) ∧
    [⟨⟨"", ["sh"]⟩, "/sh"⟩] ++ [] = report.copied ∧
    ∃ report' t'' content,
      Yields (on x (assemble [⟨⟨"", ["sh"]⟩, "/sh"⟩] [] [])) t report' t'' ∧
      report'.copied = report.copied ∧ t'.tree.read x.image = .ok content ∧
      t''.tree.read x.image = .ok content := by
  obtain ⟨t, g, s, d, hformats, hfresh, -, hfile, hread⟩ := exists_formats_small ["/"]
  have hisFile := FileTree.isFile_of_read hread
  -- The directory is the root directory, which is there, and one of the two files is written.
  have hroot : (Fat.Call.makeDirectory "/").on d = (.ok (), d) := by
    obtain ⟨hopen, hwritable, -⟩ := hfresh.holds
    have hpath : Fat.splitPath "/" = [] := by decide
    have hmake := Fat.Edit.makeDirectory_eq hopen hwritable "/"
    rw [hpath] at hmake
    exact Fat.Call.on_makeDirectory hmake
  have hcan : BinaryEntry.canCopy s.session.tree ⟨⟨"", ["sh"]⟩, "/sh"⟩ = true ∧
      BinaryEntry.canCopy s.session.tree ⟨⟨"", ["sh"]⟩, "/a|b"⟩ = false := by
    have hname : Fat.isValidName (lastName "/sh") = true := by decide
    have hname' : Fat.isValidName (lastName "/a|b") = false := by decide
    simp [BinaryEntry.canCopy, BinaryEntry.isThere, hisFile, hname, hname']
  have hwrite : ((BinaryEntry.call s.session.tree ⟨⟨"", ["sh"]⟩, "/sh"⟩).on d).1 = .ok () := by
    have hspelling : Fat.spellingOf "sh" (fun _ => false) =
        .ok ⟨none, Fat.asciiBytes "SH         ".toList, 8⟩ := by decide
    have hsupplied := BinaryEntry.supplied_call s.session.tree ⟨⟨"", ["sh"]⟩, "/sh"⟩
    rw [BinaryEntry.call_of_read hread] at hsupplied ⊢
    exact hfresh.writeFile_ok (by decide) hspelling hsupplied (by decide)
  have hplaces : s.session.logPlaces = ∅ := by
    simp [Session.logPlaces, hfile]
  have hfilter : ([⟨⟨"", ["sh"]⟩, "/sh"⟩] ++ [⟨⟨"", ["sh"]⟩, "/a|b"⟩] : List BinaryEntry).filter
      (·.canCopy s.session.tree) = [⟨⟨"", ["sh"]⟩, "/sh"⟩] := by
    rw [List.filter_append, List.filter_singleton, List.filter_singleton, hcan.1, hcan.2]
    rfl
  have hasked : ∀ e ∈ ([⟨⟨"", ["sh"]⟩, "/sh"⟩] ++ [⟨⟨"", ["sh"]⟩, "/a|b"⟩] : List BinaryEntry),
      ∃ isFile, s.session.tree.isFile e.source = .ok isFile := by
    simp [hisFile]
  have hdoes : d.Does (["/"].map .makeDirectory ++
      [BinaryEntry.call s.session.tree ⟨⟨"", ["sh"]⟩, "/sh"⟩]) _ :=
    ⟨d, hroot, _, Prod.ext hwrite rfl, rfl⟩
  obtain ⟨report, u, content, hassemble, hreport, -, hlike, -⟩ :=
    hformats.exists_assembled (by simp [hplaces]) hasked
      (by
        rw [hfilter, List.forall_mem_singleton, hplaces, insert_empty_eq]
        exact hformats.tracks.avoids_image hcan.1 hwrite)
      (by
        rw [hfilter]
        exact hdoes) []
  rw [hfilter] at hreport
  have hlogs : u.session.LogsAside (⟨"", ["fs.img"]⟩ :: report.copied.map (·.source)) := by
    intro p hp
    rw [← hlike.logFile, hfile] at hp
    cases hp
  have hyields := yields_on.2 ⟨u, hassemble, rfl⟩
  exact ⟨_, t, u.session, report, rfl, by simp, hyields, hlogs, hreport.symm,
    assemble_copied rfl (by simp) hyields hlogs hreport.symm⟩

end Assembly

end BootImage
