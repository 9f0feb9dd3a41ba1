import BootImage.Proofs.Session.Failing
import BootImage.Proofs.Settings.Editing
import BootImage.Proofs.Settings.Storing

/-!
# Updates that are done again

An update of a settings file changes the lines that it must and no others, and does nothing but log
lines if there are none. So it can be done again: the file then has the first value of each name as
it is given, and no line is changed. Nor can the second update be stopped. The first one logged a
line for each name, so the log file is there, and nothing is written to any other file.

## Main definitions

* `LogApart`: the log file is another one than the settings file.
* `Unbroken`: no name and no value breaks a line.
* `Edits`: an update of a settings file that touches only what it must.

## Main results

* `edits_of_apply`: every update is one.
* `exists_apply_again`: an update can be done again, and then changes nothing.
* `apply_touches`: both, and that values that are refused change nothing at all.
-/

namespace BootImage

open Host (Path FileTree)

namespace Settings

open Text (splitLines isLineBreak)

variable {s s' : Session} {p : Path} {new : Values} {names : List String} {text : List Char}

/-! ### What is logged -/

/-- If nothing is told of the lines, no value was for one of them. -/
theorem left_of_changes_nil {pending : Values} {lines : List (List Char)}
    (h : (updateLines pending lines).2.1 = []) : (updateLines pending lines).2.2 = pending := by
  induction lines with
  | nil => rfl
  | cons l lines ih =>
    rw [updateLines] at h ⊢
    split
    · rename_i hl
      simp only [hl] at h
      exact ih h
    · rename_i name value hl
      simp only [hl] at h
      split
      · rename_i hgiven
        simp only [hgiven] at h
        exact ih h
      · rename_i given hgiven
        simp only [hgiven] at h
        split at h <;> cases h

theorem changes_of_nil (lines : List (List Char)) : (updateLines [] lines).2.1 = [] := by
  induction lines with
  | nil => rfl
  | cons l lines ih =>
    rw [updateLines]
    split
    · exact ih
    · exact ih

/-- A line is logged for each name that is given, so none is just if there are no names. -/
theorem messages_eq_nil_iff (new : Values) (text : List Char) :
    messages new text = [] ↔ new = [] := by
  have hchanges : (update new text).2 = (updateLines new (splitLines text)).2.1 ++
      (updateLines new (splitLines text)).2.2.map fun v => .added v.1 := rfl
  rw [messages, List.map_eq_nil_iff, hchanges, List.append_eq_nil_iff, List.map_eq_nil_iff]
  constructor
  · rintro ⟨hlines, hadded⟩
    exact (left_of_changes_nil hlines).symm.trans hadded
  · rintro rfl
    have hlines := changes_of_nil (splitLines text)
    exact ⟨hlines, left_of_changes_nil hlines⟩

/-- An update moves neither the log file nor the current directory. -/
theorem session_of_apply (h : Yields (apply p new) s names s') : s'.logFile = s.logFile ∧
    s'.tree.current = s.tree.current := by
  obtain ⟨text, s₁, -, hlogs, -, hend⟩ := (yields_apply (check_of_apply h)).1 h
  have hlogged : s.Logs s₁ := ⟨_, hlogs⟩
  rcases hend with ⟨-, rfl⟩ | ⟨-, hwrite⟩
  · exact ⟨hlogged.logFile, hlogged.grows.current⟩
  · obtain ⟨hfile, hgrows⟩ := Build.grows_writeAtomically hwrite
    exact ⟨hfile.trans hlogged.logFile, hgrows.current.trans hlogged.grows.current⟩

/-- The log file is another one than the settings file. -/
def LogApart (p : Path) (s : Session) : Prop :=
  ∀ file ∈ s.logFile, file.place s.tree.current ≠ p.place s.tree.current

theorem LogApart.of_apply (hlog : LogApart p s) (h : Yields (apply p new) s names s') :
    LogApart p s' := by
  obtain ⟨hfile, hcurrent⟩ := session_of_apply h
  rw [LogApart, hfile, hcurrent]
  exact hlog

theorem LogApart.locate_ne (hlog : LogApart p s) : ∀ file ∈ s.logFile, ∀ place,
    s.tree.locate file = .ok place → s.tree.locate p ≠ .ok place := by
  intro file hfile place hplace hplace'
  exact hlog file hfile
    ((FileTree.place_of_locate hplace).symm.trans (FileTree.place_of_locate hplace'))

/-- After an update the log file is there, unless no values were given. -/
theorem canLog_of_apply (hlog : LogApart p s) (h : Yields (apply p new) s names s')
    (hnew : new ≠ []) : s'.CanLog := by
  obtain ⟨text, s₁, -, hlogs, -, hend⟩ := (yields_apply (check_of_apply h)).1 h
  have hlogged : s.Logs s₁ := ⟨_, hlogs⟩
  have hcan := Build.canLog_of_each hlogs fun hnil => hnew ((messages_eq_nil_iff new text).1 hnil)
  rcases hend with ⟨-, rfl⟩ | ⟨-, hwrite⟩
  · exact hcan
  · obtain ⟨hfile, hgrows⟩ := Build.grows_writeAtomically hwrite
    refine hcan.of_grows hfile hgrows fun file hmem => ?_
    rw [hlogged.grows.current]
    exact hlog file (hlogged.logFile ▸ hmem)

/-! ### One update -/

/-- An update of the settings file at a path: the session that it was started in, the names that it
tells and the session that it leaves. Lines are left as they are unless they have to change, and if
none has to, nothing is done but that lines are logged. -/
structure Edits (p : Path) (new : Values) (s : Session) (names : List String) (s' : Session) :
    Prop where
  lines : ∃ text text', Yields (stored p) s text s ∧ Yields (stored p) s' text' s' ∧
    Edited new (splitLines text) (splitLines text') names
  untouched : names = [] → s.Logs s' ∧ s'.tree.fileAt? p = s.tree.fileAt? p

/-- No name and no value breaks a line. -/
def Unbroken (new : Values) : Prop :=
  ∀ v ∈ new, (∀ c ∈ v.1.toList, isLineBreak c = false) ∧ ∀ c ∈ v.2, isLineBreak c = false

theorem Unbroken.clean (h : Unbroken new) (hcheck : check new = none) : ∀ v ∈ new, Clean v.1 := by
  refine fun v hv => clean_of_check hcheck hv fun hnewline => ?_
  have hbreak := (h v hv).1 '\n' hnewline
  cases hbreak

theorem edits_of_apply (hplain : Unbroken new) (hlog : LogApart p s)
    (h : Yields (apply p new) s names s') : Edits p new s names s' := by
  have hapart : ∀ file ∈ s.logFile, ∀ place, s'.tree.locate file = .ok place →
      s'.tree.locate p ≠ .ok place := by
    rw [← (session_of_apply h).1]
    exact (hlog.of_apply h).locate_ne
  obtain ⟨hcheck, text, hstored, rfl, hafter⟩ := stored_of_apply h hapart
  refine ⟨⟨text, textAfter new text, hstored, hafter,
    edited_textAfter (hplain.clean hcheck) (fun v hv => (hplain v hv).2) text⟩, fun hsame => ?_⟩
  obtain ⟨text', s₁, -, hlogs, hchanged, hend⟩ := (yields_apply hcheck).1 h
  rcases hend with ⟨-, rfl⟩ | ⟨hne, -⟩
  · have hlogged : s.Logs s' := ⟨_, hlogs⟩
    exact ⟨hlogged, (hlogged.guards hlog).fileAt?_eq⟩
  · exact absurd hsame hne

/-! ### Another update -/

/-- An update can be done again, and then no line has to change. -/
theorem exists_apply_again (hnames : (new.map Prod.fst).Nodup) (hplain : Unbroken new)
    (hlog : LogApart p s) (h : Yields (apply p new) s names s') :
    ∃ s'', Yields (apply p new) s' [] s'' ∧ s''.tree.fileAt? p = s'.tree.fileAt? p := by
  have hapart := hlog.of_apply h
  obtain ⟨hcheck, text, -, rfl, hafter⟩ := stored_of_apply h fun file hfile =>
    hapart.locate_ne file ((session_of_apply h).1 ▸ hfile)
  have hsame : changed new (textAfter new text) = [] :=
    changed_textAfter (hplain.clean hcheck) hnames (fun v hv => (hplain v hv).2) text
  obtain ⟨s'', hlogs⟩ : ∃ s'', Yields (each (messages new (textAfter new text)) Build.log) s'
      PUnit.unit s'' := by
    by_cases hnew : new = []
    · rw [(messages_eq_nil_iff new _).2 hnew]
      exact ⟨s', yields_pure.2 ⟨rfl, rfl⟩⟩
    · exact (canLog_of_apply hlog h hnew).exists_each _
  have hagain : Yields (apply p new) s' [] s'' := (yields_apply hcheck).2
    ⟨textAfter new text, s'', hafter, hlogs, hsame.symm, .inl ⟨rfl, rfl⟩⟩
  exact ⟨s'', hagain, ((edits_of_apply hplain hapart hagain).untouched rfl).2⟩

/-! ### Values that are refused -/

/-- Once the values have passed the check, it is not the configuration that is wrong. -/
theorem failsAs_apply (hcheck : check new = none) :
    FailsAs (fun e => e.kind ≠ .configuration) (apply p new) := by
  have hfault : ∀ {α : Type} {x : Build α}, FailsAs Failure.IsFault x →
      FailsAs (fun e => e.kind ≠ .configuration) x :=
    fun hx => hx.mono fun _ => Failure.IsFault.kind_ne
  have hhas : FailsAs (fun e => e.kind ≠ .configuration) (Build.has p) :=
    (hfault (Build.failsAs_query (·.probe p))).bind fun _ => failsAs_pure _
  have hread : FailsAs (fun e => e.kind ≠ .configuration) (Build.readText p) := by
    refine (hfault (Build.failsAs_query (·.read p))).bind fun content => ?_
    split
    · exact failsAs_pure _
    · exact failsAs_throw Failure.Kind.noConfusion
  have hstored : FailsAs (fun e => e.kind ≠ .configuration) (stored p) := by
    refine hhas.bind fun found => ?_
    split
    · exact hread
    · exact failsAs_pure _
  rw [apply_eq hcheck]
  refine hstored.bind fun text => FailsAs.bind
    (.each (fun change : Change => hfault (Build.failsAs_log change.text)) _) fun _ => ?_
  split
  · exact (hfault (Build.failsAs_writeAtomically _ _)).bind fun _ => failsAs_pure _
  · exact failsAs_pure _

/-- Values that are refused change nothing. -/
theorem eq_of_refused {e : Failure} (h : (apply p new).run.run s = (.error e, s'))
    (hkind : e.kind = .configuration) : s' = s := by
  cases hcheck : check new with
  | none => exact absurd hkind ((failsAs_apply hcheck).of_run h)
  | some refused =>
    rw [apply, hcheck] at h
    cases h
    rfl

/-- Updates of the settings file at a path, if the log file is another one. Each that ends leaves
lines as they are unless they have to change, it can be done again, and then changes none. One that
is refused for its values changes nothing. -/
theorem apply_touches (hnames : (new.map Prod.fst).Nodup) (hplain : Unbroken new)
    (hlog : LogApart p s) :
    (∀ names s', Yields (apply p new) s names s' → Edits p new s names s' ∧
      ∃ s'', Yields (apply p new) s' [] s'' ∧ s''.tree.fileAt? p = s'.tree.fileAt? p) ∧
    ∀ e s', (apply p new).run.run s = (.error e, s') → e.kind = .configuration → s' = s :=
  ⟨fun _ _ h => ⟨edits_of_apply hplain hlog h, exists_apply_again hnames hplain hlog h⟩,
    fun _ _ => eq_of_refused⟩

/-- The first line of a name is changed, another name gets a line, and a comment, an empty line, a
line for a third name and the second one of the first name are left alone. -/
theorem exists_apply_touches : ∃ (s s' s'' : Session) (p : Path) (new : Values),
    (new.map Prod.fst).Nodup ∧ Unbroken new ∧ LogApart p s ∧ s.logFile ≠ none ∧
      Yields (apply p new) s ["A", "C"] s' ∧ Edits p new s ["A", "C"] s' ∧
      Yields (apply p new) s' [] s'' ∧ s''.tree.fileAt? p = s'.tree.fileAt? p := by
  let new : Values := [("A", "x y".toList), ("C", [])]
  let line := "# tools\n\nA=1\nB=\nA=2\n"
  let content := Content.ofBytes (Build.textBytes line)
  let p : Path := ⟨"", ["settings"]⟩
  let s : Session :=
    { tree := (FileTree.empty []).put ["settings"] content, clock := "", searchPath := ""
      logFile := some ⟨"", ["log"]⟩ }
  have hstored : (stored p).run.run s = (.ok line.toList, s) := by
    have hline := Build.fromUTF8?_textBytes line
    rw [← Content.toBytes_ofBytes (Build.textBytes line)] at hline
    have hread : s.tree.read p = .ok content := rfl
    exact yields_stored_of_read hread hline
  have hupdate : update new line.toList = (["# tools".toList, [], "A=\"x y\"".toList,
      "B=".toList, "A=2".toList, "C=\"\"".toList], [.updated "A", .added "C"]) := by decide
  have hchanged : changed new line.toList = ["A", "C"] := by decide
  -- How the rest of the update ends does not hang on the contents.
  have hrest : ∀ old written : Content, ((do
      for change in [Change.updated "A", Change.added "C"] do
        Build.log change.text
      if ["A", "C"] ≠ [] then
        Build.writeAtomically ⟨"", ["settings"]⟩ written
      return ["A", "C"] : Build (List String)).run.run
        { tree := (FileTree.empty []).put ["settings"] old, clock := "", searchPath := ""
          logFile := some ⟨"", ["log"]⟩ }).1 = .ok ["A", "C"] := by
    intro old written
    rfl
  obtain ⟨s', happly⟩ : ∃ s', Yields (apply p new) s ["A", "C"] s' := by
    have hnames : ((apply p new).run.run s).1 = .ok ["A", "C"] := by
      rw [apply_eq rfl, run_bind, hstored]
      simp only [ExceptT.bindCont, hupdate, hchanged]
      exact hrest _ _
    exact ⟨_, Prod.ext hnames rfl⟩
  have hdistinct : (new.map Prod.fst).Nodup := by decide
  have hplain : Unbroken new := by
    have hnew : (new.all fun v => v.1.toList.all (fun c => !isLineBreak c) &&
        v.2.all fun c => !isLineBreak c) = true := by decide
    simp only [List.all_eq_true, Bool.and_eq_true, Bool.not_eq_true'] at hnew
    exact hnew
  have hlog : LogApart p s := by
    rintro file ⟨⟩
    decide
  obtain ⟨hedits, s'', hagain, hfile⟩ := (apply_touches hdistinct hplain hlog).1 _ _ happly
  exact ⟨s, s', s'', p, new, hdistinct, hplain, hlog, Option.some_ne_none _, happly, hedits, hagain,
    hfile⟩

end Settings

end BootImage
