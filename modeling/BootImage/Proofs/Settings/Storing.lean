import BootImage.Proofs.Assembly.Logging
import BootImage.Proofs.Settings.Updating
import BootImage.Settings.File

/-!
# Settings that are stored

What an update leaves in the file is what loading finds there. In between lie the encoding of the
text, the temporary file, and the lines that are logged. Logging happens before the file is written
and may make directories, so a log file is allowed as long as it is not the settings file itself.

## Main definitions

* `stored`: the text of a settings file.
* `messages`: what an update logs.

## Main results

* `yields_apply`: an update taken apart.
* `apply_loads`: what is loaded after an update is what was stored, just if all values can be.
-/

namespace BootImage

open Host (Path FileTree Fault Node)

namespace Build

variable {s s' : Session} {p : Path} {text : List Char}

theorem fromUTF8?_textBytes (line : String) :
    String.fromUTF8? (ByteArray.mk (textBytes line).toArray) = some line := by
  have hbytes : ByteArray.mk (textBytes line).toArray = line.toByteArray := by
    simp [textBytes, String.toUTF8_eq_toByteArray]
  rw [hbytes, String.fromUTF8?, dif_pos line.isValidUTF8]
  rfl

theorem yields_has {found : Bool} : Yields (has p) s found s' ↔
    ∃ node, s.tree.probe p = .ok node ∧ found = node.isSome ∧ s' = s := by
  have hbind : has p = query (·.probe p) >>= fun node => pure node.isSome := rfl
  rw [hbind, yields_bind]
  constructor
  · rintro ⟨node, s₁, hquery, hpure⟩
    obtain ⟨hprobe, rfl⟩ := yields_query.1 hquery
    obtain ⟨rfl, rfl⟩ := yields_pure.1 hpure
    exact ⟨node, hprobe, rfl, rfl⟩
  · rintro ⟨node, hprobe, rfl, rfl⟩
    exact ⟨node, s', yields_query.2 ⟨hprobe, rfl⟩, yields_pure.2 ⟨rfl, rfl⟩⟩

theorem yields_readText : Yields (readText p) s text s' ↔
    ∃ content line, s.tree.read p = .ok content ∧
      String.fromUTF8? (ByteArray.mk content.toBytes.toArray) = some line ∧
      text = line.toList ∧ s' = s := by
  rw [readText, yields_bind]
  constructor
  · rintro ⟨content, s₁, hquery, h⟩
    obtain ⟨hread, rfl⟩ := yields_query.1 hquery
    cases hline : String.fromUTF8? (ByteArray.mk content.toBytes.toArray) with
    | none =>
      rw [hline] at h
      exact absurd h not_yields_throw
    | some line =>
      rw [hline] at h
      obtain ⟨rfl, rfl⟩ := yields_pure.1 h
      exact ⟨content, line, hread, hline, rfl, rfl⟩
  · rintro ⟨content, line, hread, hline, rfl, rfl⟩
    refine ⟨content, s', yields_query.2 ⟨hread, rfl⟩, ?_⟩
    rw [hline]
    exact yields_pure.2 ⟨rfl, rfl⟩

end Build

namespace Host.FileTree

variable {t : FileTree} {p : Path} {c : Content}

theorem probe_of_read (h : t.read p = .ok c) :
    ∃ executable, t.probe p = .ok (some (.file c executable)) := by
  obtain ⟨place, hplace, hc⟩ := read_eq_ok.1 h
  obtain ⟨executable, hnode⟩ := content?_eq_some.1 hc
  exact ⟨executable, by rw [probe, hplace]; exact congrArg _ hnode⟩

end Host.FileTree

namespace Settings

variable {s s' : Session} {p : Path} {new : Values} {names : List String} {text : List Char}

/-- The text of the settings file at a path; a file that is missing has none. -/
def stored (p : Path) : Build (List Char) := do
  if ← Build.has p then Build.readText p else return []

theorem yields_stored : Yields (stored p) s text s' ↔ s' = s ∧
    (s.tree.probe p = .ok none ∧ text = [] ∨
      (∃ node, s.tree.probe p = .ok (some node)) ∧ Yields (Build.readText p) s text s) := by
  rw [stored, yields_bind]
  constructor
  · rintro ⟨found, s₁, hhas, h⟩
    obtain ⟨node, hprobe, rfl, rfl⟩ := Build.yields_has.1 hhas
    cases node with
    | none =>
      obtain ⟨rfl, rfl⟩ := yields_pure.1 h
      exact ⟨rfl, .inl ⟨hprobe, rfl⟩⟩
    | some node =>
      obtain ⟨_, _, _, _, _, rfl⟩ := Build.yields_readText.1 h
      exact ⟨rfl, .inr ⟨⟨node, hprobe⟩, h⟩⟩
  · rintro ⟨rfl, ⟨hprobe, rfl⟩ | ⟨⟨node, hprobe⟩, h⟩⟩
    · exact ⟨false, s', Build.yields_has.2 ⟨none, hprobe, rfl, rfl⟩, yields_pure.2 ⟨rfl, rfl⟩⟩
    · exact ⟨true, s', Build.yields_has.2 ⟨some node, hprobe, rfl, rfl⟩, h⟩

theorem yields_load {loaded : Values} : Yields (load p) s loaded s' ↔
    ∃ text, Yields (stored p) s text s' ∧ loaded = values text := by
  have hload : load p = stored p >>= fun text => pure (values text) := by
    rw [load, stored, bind_assoc]
    refine bind_congr fun found => ?_
    cases found <;> rfl
  rw [hload, yields_bind]
  constructor
  · rintro ⟨text, s₁, hstored, hpure⟩
    obtain ⟨rfl, rfl⟩ := yields_pure.1 hpure
    exact ⟨text, hstored, rfl⟩
  · rintro ⟨text, hstored, rfl⟩
    exact ⟨text, s', hstored, yields_pure.2 ⟨rfl, rfl⟩⟩

/-- A file that can be read as text holds the text. -/
theorem yields_stored_of_read {content : Content} {line : String}
    (hread : s.tree.read p = .ok content)
    (hline : String.fromUTF8? (ByteArray.mk content.toBytes.toArray) = some line) :
    Yields (stored p) s line.toList s := by
  obtain ⟨executable, hprobe⟩ := FileTree.probe_of_read hread
  exact yields_stored.2 ⟨rfl, .inr ⟨⟨_, hprobe⟩,
    Build.yields_readText.2 ⟨content, line, hread, hline, rfl, rfl⟩⟩⟩

theorem apply_eq (hcheck : check new = none) : apply p new = (do
    let text ← stored p
    for change in (update new text).2 do
      Build.log change.text
    if changed new text ≠ [] then
      Build.writeAtomically p (Content.ofBytes (Build.textBytes
        (String.ofList (Text.joinLines (update new text).1))))
    return changed new text) := by
  rw [apply, hcheck, stored]
  simp only [bind_assoc, pure_bind]
  refine bind_congr fun found => ?_
  cases found <;> rfl

theorem check_of_apply (h : Yields (apply p new) s names s') : check new = none := by
  cases hcheck : check new with
  | none => rfl
  | some e =>
    rw [apply, hcheck] at h
    exact absurd h not_yields_throw

/-- The messages about what an update does. -/
def messages (new : Values) (text : List Char) : List String :=
  (update new text).2.map Change.text

/-- An update taken apart: what is done is logged, and a text that differs is written. -/
theorem yields_apply (hcheck : check new = none) : Yields (apply p new) s names s' ↔
    ∃ text s₁, Yields (stored p) s text s ∧
      Yields (each (messages new text) Build.log) s PUnit.unit s₁ ∧ names = changed new text ∧
      (names = [] ∧ s' = s₁ ∨ names ≠ [] ∧ Yields (Build.writeAtomically p
        (Content.ofBytes (Build.textBytes (String.ofList (textAfter new text))))) s₁ () s') := by
  rw [apply_eq hcheck, yields_bind]
  simp only [messages, each_map]
  constructor
  · rintro ⟨text, s₀, hstored, h⟩
    obtain ⟨rfl, -⟩ := yields_stored.1 hstored
    obtain ⟨⟨⟩, s₁, hlogs, h⟩ := yields_bind.1 h
    refine ⟨text, s₁, hstored, hlogs, ?_⟩
    split at h
    · rename_i hchanged
      obtain ⟨⟨⟩, s₂, hwrite, hpure⟩ := yields_bind.1 h
      obtain ⟨rfl, rfl⟩ := yields_pure.1 hpure
      refine ⟨rfl, .inr ⟨hchanged, ?_⟩⟩
      rwa [textAfter, if_neg hchanged]
    · rename_i hsame
      obtain ⟨rfl, rfl⟩ := yields_pure.1 h
      exact ⟨rfl, .inl ⟨not_not.1 hsame, rfl⟩⟩
  · rintro ⟨text, s₁, hstored, hlogs, rfl, hend⟩
    refine ⟨text, s, hstored, yields_bind.2 ⟨⟨⟩, s₁, hlogs, ?_⟩⟩
    rcases hend with ⟨hsame, rfl⟩ | ⟨hchanged, hwrite⟩
    · rw [if_neg (not_not.2 hsame)]
      exact yields_pure.2 ⟨rfl, rfl⟩
    · rw [textAfter, if_neg hchanged] at hwrite
      rw [if_pos hchanged]
      exact yields_bind.2 ⟨(), s', hwrite, yields_pure.2 ⟨rfl, rfl⟩⟩

/-- Only an update without values changes nothing in a file that is missing. -/
theorem update_nil_eq_nil (h : changed new [] = []) : (update new []).2 = [] := by
  have hnew : new = [] := by
    rw [changed_eq] at h
    exact List.map_eq_nil_iff.1 (List.append_eq_nil_iff.1 h).2
  rw [hnew]
  rfl

/-- What an update leaves in the file is found there, if the log file is another one. -/
theorem stored_of_apply (h : Yields (apply p new) s names s')
    (hlog : ∀ file ∈ s.logFile, ∀ place, s'.tree.locate file = .ok place →
      s'.tree.locate p ≠ .ok place) :
    check new = none ∧ ∃ text, Yields (stored p) s text s ∧ names = changed new text ∧
      Yields (stored p) s' (textAfter new text) s' := by
  have hcheck := check_of_apply h
  obtain ⟨text, s₁, hstored, hlogs, rfl, hend⟩ := (yields_apply hcheck).1 h
  have hgrows := Session.Logs.grows ⟨_, hlogs⟩
  refine ⟨hcheck, text, hstored, rfl, ?_⟩
  rcases hend with ⟨hsame, rfl⟩ | ⟨hchanged, hwrite⟩
  · rw [textAfter, if_pos hsame]
    obtain ⟨-, ⟨-, rfl⟩ | ⟨-, htext⟩⟩ := yields_stored.1 hstored
    · rw [messages, update_nil_eq_nil hsame, List.map_nil, each_nil, yields_pure] at hlogs
      rw [hlogs.2]
      exact hstored
    · obtain ⟨content, line, hread, hline, rfl, -⟩ := Build.yields_readText.1 htext
      obtain ⟨place, hplace, hcontent⟩ := FileTree.read_eq_ok.1 hread
      obtain ⟨content', hcontent', -, hkept⟩ :=
        hgrows.content place (Set.notMem_empty place) content hcontent
      have hplace' := hgrows.locate hplace
      obtain rfl := hkept fun file hfile heq => hlog file hfile place heq hplace'
      exact yields_stored_of_read (FileTree.read_eq_ok.2 ⟨place, hplace', hcontent'⟩) hline
  · have hread := Build.read_of_writeAtomically hwrite
    have hline := Build.fromUTF8?_textBytes (String.ofList (textAfter new text))
    rw [← Content.toBytes_ofBytes (Build.textBytes _)] at hline
    have := yields_stored_of_read hread hline
    rwa [String.toList_ofList] at this

/-- Values are stored in a settings file, and the file is loaded before and after. The settings are
then the old ones with the given values, and the names that were told are those that differed, just
if each value can be stored. -/
theorem apply_loads (hnames : (new.map Prod.fst).Nodup) (h : Yields (apply p new) s names s')
    (hlog : ∀ file ∈ s.logFile, ∀ place, s'.tree.locate file = .ok place →
      s'.tree.locate p ≠ .ok place) :
    ∃ text old loaded, Yields (stored p) s text s ∧ Yields (load p) s old s ∧
      Yields (load p) s' loaded s' ∧
      (Applied new old loaded names ↔ ∀ v ∈ new, Storable text v.1 v.2) := by
  obtain ⟨hcheck, text, hstored, rfl, hafter⟩ := stored_of_apply h hlog
  exact ⟨text, values text, values (textAfter new text), hstored,
    yields_load.2 ⟨text, hstored, rfl⟩, yields_load.2 ⟨textAfter new text, hafter, rfl⟩,
    applied_iff hcheck hnames text⟩

/-- A name is given another value and a new name is added, in a file that has two lines for a third
name. -/
theorem exists_apply_loads : ∃ (s s' : Session) (p : Path) (new : Values) (names : List String),
    (new.map Prod.fst).Nodup ∧ Yields (apply p new) s names s' ∧
      (∀ file ∈ s.logFile, ∀ place, s'.tree.locate file = .ok place →
        s'.tree.locate p ≠ .ok place) ∧
      ∃ old loaded, Yields (load p) s old s ∧ Yields (load p) s' loaded s' ∧
        Applied new old loaded names := by
  let new : Values := [("A", "x y".toList), ("C", [])]
  let line := "B=0\nA=1\n#B\nB=7\n"
  let content := Content.ofBytes (Build.textBytes line)
  let s : Session :=
    { tree := (FileTree.empty []).put ["settings"] content, clock := "", searchPath := "" }
  have hstored : Yields (stored ⟨"", ["settings"]⟩) s line.toList s := by
    have hline := Build.fromUTF8?_textBytes line
    rw [← Content.toBytes_ofBytes (Build.textBytes line)] at hline
    have hread : s.tree.read ⟨"", ["settings"]⟩ = .ok content := rfl
    exact yields_stored_of_read hread hline
  have hupdate : update new line.toList =
      (["B=0".toList, "A=\"x y\"".toList, "#B".toList, "B=7".toList, "C=\"\"".toList],
        [.updated "A", .added "C"]) := by decide
  have hchanged : changed new line.toList = ["A", "C"] := by decide
  -- How the rest of the update ends does not hang on the contents.
  have hrest : ∀ old written : Content, ((do
      for change in [Change.updated "A", Change.added "C"] do
        Build.log change.text
      if ["A", "C"] ≠ [] then
        Build.writeAtomically ⟨"", ["settings"]⟩ written
      return ["A", "C"] : Build (List String)).run.run
        { tree := (FileTree.empty []).put ["settings"] old, clock := "", searchPath := "" }).1 =
        .ok ["A", "C"] := by
    intro old written
    rfl
  obtain ⟨s', happly⟩ :
      ∃ s', Yields (apply ⟨"", ["settings"]⟩ new) s ["A", "C"] s' := by
    have hrun : (stored ⟨"", ["settings"]⟩).run.run s = (.ok line.toList, s) := hstored
    have hnames : ((apply ⟨"", ["settings"]⟩ new).run.run s).1 = .ok ["A", "C"] := by
      rw [apply_eq rfl, run_bind, hrun]
      simp only [ExceptT.bindCont, hupdate, hchanged]
      exact hrest _ _
    exact ⟨_, Prod.ext hnames rfl⟩
  have hdistinct : (new.map Prod.fst).Nodup := by decide
  have hlog : ∀ file ∈ s.logFile, ∀ place, s'.tree.locate file = .ok place →
      s'.tree.locate ⟨"", ["settings"]⟩ ≠ .ok place := by
    rintro file ⟨⟩
  obtain ⟨text, old, loaded, htext, hold, hloaded, hiff⟩ := apply_loads hdistinct happly hlog
  obtain rfl : line.toList = text := by
    cases hstored.symm.trans htext
    rfl
  have hone : (assigned (Text.splitLines line.toList) "A").length ≤ 1 ∧
      (assigned (Text.splitLines line.toList) "C").length ≤ 1 := by decide
  have hstorable : ∀ v ∈ new, Storable line.toList v.1 v.2 := by
    have hplain : ("x y".toList.all fun c => !Text.isLineBreak c) = true := by decide
    simp only [List.all_eq_true, Bool.not_eq_true'] at hplain
    simp only [new, List.forall_mem_cons]
    exact ⟨⟨by decide, hplain, .inl hone.1⟩, ⟨by decide, by simp, .inl hone.2⟩, by simp⟩
  exact ⟨s, s', _, new, _, hdistinct, happly, hlog, old, loaded, hold, hloaded,
    hiff.2 hstorable⟩

end Settings

end BootImage
