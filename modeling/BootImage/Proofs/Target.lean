import BootImage.Proofs.Host.Children
import BootImage.Proofs.Kernel
import BootImage.Proofs.Session.Altering
import BootImage.Proofs.Session.Failing

/-!
# The linker script in force

Boards of one architecture share a place for the linker script in force, and whichever target was
resolved last with its script put in force is the one that is linked. So what is at the place is
told from the calls: a call that fails, for whatever reason, counts for nothing, and so does one
that asks for the parameters alone.

The scripts themselves stay as they are. This rests on the names: a script has another name than the
one in force, and a path to a file ends in the name of the file, since each thing is in a directory
and a tree has no links. If there were a link to the script of a board where the script in force is
put, another one would be copied over the file that it leads to. A log file is written in between,
so it has to be some other file.

## Main definitions

* `ListsOnce`: each member of a list once, where it comes first.
* `Registry.resolveEach`: one call after the other, and how each of them ended.
* `inForce`: the build whose script was put in force last at a place.
* `Registry.Usable`: the scripts of a registry can be put in force in a session.

## Main results

* `listsOnce_featureList`: the features of a build.
* `Registry.resolve_cases`: how a call ends.
* `Registry.Usable.script_in_force`: what any calls make of the scripts, and what one more does.
-/

namespace BootImage

open Host (Path FileTree)

/-! ### Features -/

/-- A list has each member of another one once, in the order in which they come there first. -/
structure ListsOnce {α : Type} [BEq α] (all once : List α) : Prop where
  nodup : once.Nodup
  mem : ∀ a, a ∈ once ↔ a ∈ all
  order : once.Pairwise fun a b => all.idxOf a < all.idxOf b

theorem listsOnce_nil {α : Type} [BEq α] : ListsOnce ([] : List α) [] :=
  ⟨.nil, fun _ => Iff.rfl, .nil⟩

/-- One more member is listed if it is not there yet. -/
theorem ListsOnce.concat {α : Type} [BEq α] [LawfulBEq α] {all once : List α}
    (h : ListsOnce all once) (a : α) :
    ListsOnce (all ++ [a]) (if once.contains a then once else once ++ [a]) := by
  have hkept : ∀ b ∈ once, (all ++ [a]).idxOf b = all.idxOf b := fun b hb =>
    List.idxOf_append_of_mem ((h.mem b).1 hb)
  have horder : once.Pairwise fun b c => (all ++ [a]).idxOf b < (all ++ [a]).idxOf c :=
    h.order.imp_of_mem fun hb hc hlt => by rwa [hkept _ hb, hkept _ hc]
  by_cases hmem : a ∈ once
  · rw [if_pos (List.contains_iff_mem.2 hmem)]
    refine ⟨h.nodup, fun b => ?_, horder⟩
    rw [List.mem_append, List.mem_singleton, ← h.mem b]
    exact ⟨.inl, fun hb => hb.elim id fun heq => heq ▸ hmem⟩
  · rw [if_neg fun hin => hmem (List.contains_iff_mem.1 hin)]
    have hnew : a ∉ all := fun hin => hmem ((h.mem a).2 hin)
    refine ⟨?_, fun b => ?_, ?_⟩
    · exact List.nodup_append.2 ⟨h.nodup, List.nodup_singleton a, fun b hb c hc heq =>
        hmem (List.mem_singleton.1 hc ▸ heq ▸ hb)⟩
    · simp only [List.mem_append, h.mem b]
    · refine List.pairwise_append.2 ⟨horder, List.pairwise_singleton _ _, fun b hb c hc => ?_⟩
      rw [List.mem_singleton.1 hc, hkept b hb, List.idxOf_append_of_notMem hnew]
      exact Nat.lt_of_lt_of_le (List.idxOf_lt_length_of_mem ((h.mem b).1 hb)) (Nat.le_add_right _ _)

theorem listsOnce_foldl {α : Type} [BEq α] [LawfulBEq α] (all : List α) :
    ListsOnce all
      (all.foldl (fun done a => if done.contains a then done else done ++ [a]) []) := by
  induction all using List.reverseRecOn with
  | nil => exact listsOnce_nil
  | append_singleton all a ih =>
    rw [List.foldl_concat]
    exact ih.concat a

/-- The features of a build are those of the architecture and the board and those asked for, each
once, where it comes first. -/
theorem listsOnce_featureList (architecture : Architecture) (target : Target) :
    ListsOnce (architecture.feature :: s!"board_{target.board}" :: target.features)
      (featureList architecture target) :=
  listsOnce_foldl _

/-- The first member comes first. -/
theorem ListsOnce.head? {α : Type} [BEq α] [LawfulBEq α] {a : α} {all once : List α}
    (h : ListsOnce (a :: all) once) : once.head? = some a := by
  have ha : a ∈ once := (h.mem a).2 List.mem_cons_self
  cases once with
  | nil => exact absurd ha List.not_mem_nil
  | cons b rest =>
    rcases List.mem_cons.1 ha with rfl | hrest
    · rfl
    · have hlt := List.rel_of_pairwise_cons h.order hrest
      rw [List.idxOf_cons_self] at hlt
      exact absurd hlt (Nat.not_lt_zero _)

/-! ### How a call ends -/

section

variable {registry : Registry} {kernelDir : Path} {target : Target} {activate : Bool}
  {s s' : Session} {result : Except Failure Resolved}

theorem ends_check (registry : Registry) (target : Target) :
    Ends (fun cause : Cause => cause.kind = .configuration) (fun _ => True)
      (registry.check target) := by
  rw [Registry.check]
  cases registry.boards.lookup target.board with
  | none => exact rfl
  | some board =>
    refine .of_unless rfl fun _ => .of_unless rfl fun _ => ?_
    cases registry.architectures.lookup target.architecture with
    | none => exact rfl
    | some architecture => exact trivial

/-- What a target is checked for. -/
theorem of_check {architecture : Architecture} {board : Board}
    (h : registry.check target = .ok (architecture, board)) :
    registry.boards.lookup target.board = some board ∧
      board.architecture = target.architecture ∧ target.mode ∈ modes ∧
      registry.architectures.lookup target.architecture = some architecture := by
  rw [Registry.check] at h
  cases hboard : registry.boards.lookup target.board with
  | none =>
    rw [hboard] at h
    cases h
  | some board' =>
    rw [hboard] at h
    obtain ⟨hsame, h⟩ := ok_of_unless h
    obtain ⟨hmode, h⟩ := ok_of_unless h
    cases harchitecture : registry.architectures.lookup target.architecture with
    | none =>
      rw [harchitecture] at h
      cases h
    | some architecture' =>
      rw [harchitecture] at h
      cases h
      exact ⟨rfl, hsame, hmode, rfl⟩

/-- A call fails before it has changed anything, or gives the parameters of the target, whose script
is there; then it goes on to put the script in force, if it is asked to. -/
theorem Registry.resolve_cases
    (h : (registry.resolve kernelDir target activate).run.run s = (result, s')) :
    (∃ e, result = .error e ∧ s' = s ∧ (e.kind = .configuration ∨
        ∃ r fault, registry.Gives kernelDir target r ∧
          s.tree.isFile r.linkerScript = .error fault)) ∨
      ∃ r c, registry.Gives kernelDir target r ∧ s.tree.read r.linkerScript = .ok c ∧
        ((activate = false ∧ result = .ok r ∧ s' = s) ∨
          (activate = true ∧ ((result = .ok r ∧ Yields r.activate s () s') ∨
            ∃ e, result = .error e ∧ r.activate.run.run s = (.error e, s')))) := by
  rw [Registry.resolve] at h
  have hends := ends_check registry target
  cases hcheck : registry.check target with
  | error cause =>
    rw [hcheck] at h hends
    cases h
    exact .inl ⟨_, rfl, rfl, .inl hends⟩
  | ok found =>
    obtain ⟨architecture, board⟩ := found
    have hgives : registry.Gives kernelDir target
        (resolvedFor kernelDir target architecture board) := ⟨_, _, hcheck, rfl⟩
    rw [hcheck] at h
    simp only [pure_bind] at h
    generalize resolvedFor kernelDir target architecture board = r at hgives h
    rw [Build.isFile, Build.run_query_bind] at h
    cases hfile : s.tree.isFile r.linkerScript with
    | error fault =>
      rw [hfile] at h
      cases h
      exact .inl ⟨_, rfl, rfl, .inr ⟨r, fault, hgives, hfile⟩⟩
    | ok isFile =>
      rw [hfile] at h
      cases isFile with
      | false =>
        cases h
        exact .inl ⟨_, rfl, rfl, .inl rfl⟩
      | true =>
        obtain ⟨c, hread⟩ := FileTree.isFile_eq_true_iff.1 hfile
        refine .inr ⟨r, c, hgives, hread, ?_⟩
        cases activate with
        | false =>
          cases h
          exact .inl ⟨rfl, rfl, rfl⟩
        | true =>
          refine .inr ⟨rfl, ?_⟩
          simp only [if_true] at h
          cases hactivate : r.activate.run.run s with
          | mk outcome t =>
            cases outcome with
            | error e =>
              rw [run_bind_error _ hactivate] at h
              cases h
              exact .inr ⟨e, rfl, rfl⟩
            | ok _ =>
              rw [run_bind_ok _ hactivate] at h
              cases h
              exact .inl ⟨rfl, hactivate⟩

/-- If a line can be logged and the log file is elsewhere, putting a script in force fails and has
changed nothing, since it cannot be copied, or stores the script in the place of the one that is in
force. -/
theorem Resolved.activate_cases {r : Resolved} {c : Content} {outcome : Except Failure Unit}
    (hread : s.tree.read r.linkerScript = .ok c) (hcan : s.CanLog)
    (hlog : ∀ p ∈ s.logFile, p.place s.tree.current ≠ r.activeScript.place s.tree.current)
    (hrun : r.activate.run.run s = (outcome, s')) :
    (∃ fault, outcome = .error ⟨.host fault, none⟩ ∧ s' = s ∧
        s.tree.copyFile r.linkerScript r.activeScript = .error fault) ∨
      ∃ place, outcome = .ok () ∧ s.tree.locate r.activeScript = .ok place ∧
        s.tree.Alters (insert place s.logPlaces) s'.tree ∧ s'.tree.content? place = some c ∧
        s'.logFile = s.logFile ∧ s'.CanLog := by
  rw [Resolved.activate, Build.run_change_bind] at hrun
  cases hcopy : s.tree.copyFile r.linkerScript r.activeScript with
  | error fault =>
    rw [hcopy] at hrun
    cases hrun
    exact .inl ⟨fault, rfl, rfl, rfl⟩
  | ok tree =>
    rw [hcopy] at hrun
    obtain ⟨c', place, hc', hplace, -, hfree, hput⟩ := FileTree.copyFile_eq_ok.1 hcopy
    cases hread.symm.trans hc'
    have haway : ∀ p ∈ s.logFile, p.place s.tree.current ∉ ({place} : Set (List String)) := by
      intro p hp heq
      exact hlog p hp (heq.trans (FileTree.place_of_locate hplace))
    have hstored : s.tree.Alters {place} tree := hput ▸ FileTree.alters_put hfree c
    have hcan₁ : Session.CanLog { s with tree } := hcan.of_grows rfl hstored.grows haway
    obtain ⟨s₂, hlogged, halters, hfile, hcan₂⟩ := hcan₁.exists_alters_log
      s!"[OK]    {r.linkerScript.name} → {r.activeScript.name}"
    cases hrun.symm.trans hlogged
    have hsame : Session.logPlaces { s with tree } = s.logPlaces :=
      Session.logPlaces_of_alters hstored rfl
    rw [hsame] at halters
    have hnotlog : place ∉ s.logPlaces := by
      rintro ⟨p, hp, hpplace⟩
      exact haway p hp (FileTree.place_of_locate hpplace).symm
    refine .inr ⟨place, rfl, hplace, ?_, ?_, hfile, hcan₂⟩
    · exact (hstored.mono (Set.singleton_subset_iff.2 (Set.mem_insert ..))).trans
        (halters.mono (Set.subset_insert ..))
    · rw [halters.content? hnotlog]
      exact hput ▸ FileTree.content?_put_self ..

end

/-! ### Calls one after the other -/

/-- Targets are resolved one after the other, each with or without its script being put in force.
How each call ended is kept, with what it was asked for; a failure stops nothing. -/
def Registry.resolveEach (registry : Registry) (kernelDir : Path) (calls : List (Target × Bool))
    (s : Session) : List (Bool × Except Failure Resolved) × Session :=
  calls.foldl (fun run call =>
    let ended := (registry.resolve kernelDir call.1 call.2).run.run run.2
    (run.1 ++ [(call.2, ended.1)], ended.2)) ([], s)

/-- The build of a call that put its script in force at a place. -/
def putInForce (current place : List String) : Bool × Except Failure Resolved → Option Resolved
  | (true, .ok r) => if r.activeScript.place current = place then some r else none
  | _ => none

/-- The build whose script was put in force last at a place. -/
def inForce (current place : List String) (done : List (Bool × Except Failure Resolved)) :
    Option Resolved :=
  (done.filterMap (putInForce current place)).getLast?

theorem inForce_concat_of_none {current place : List String}
    {call : Bool × Except Failure Resolved} (h : putInForce current place call = none)
    (done : List (Bool × Except Failure Resolved)) :
    inForce current place (done ++ [call]) = inForce current place done := by
  simp [inForce, h]

theorem inForce_concat_of_some {current place : List String} {r : Resolved}
    {call : Bool × Except Failure Resolved} (h : putInForce current place call = some r)
    (done : List (Bool × Except Failure Resolved)) :
    inForce current place (done ++ [call]) = some r := by
  simp [inForce, h]

/-- The places where scripts are put in force. -/
def Registry.slots (registry : Registry) (kernelDir : Path) (current : List String) :
    Set (List String) :=
  {place | ∃ target r, registry.Gives kernelDir target r ∧ r.activeScript.place current = place}

theorem Registry.Gives.getLast?_active {registry : Registry} {kernelDir : Path} {target : Target}
    {r : Resolved} (h : registry.Gives kernelDir target r) (current : List String) :
    (r.activeScript.place current).getLast? = some "linker.ld" := by
  obtain ⟨architecture, board, -, rfl⟩ := h
  have hlast : (kernelDir / architecture.linkerDir / "linker.ld").names.getLast? =
      some "linker.ld" := getLast?_div _ rfl
  exact Path.getLast?_place hlast (by decide) current

/-- The scripts of a registry can be put in force in a session: none of them is itself called as the
one in force, where that one goes there is no directory, and the log file, if there is one, is
there and is none of these files. -/
structure Registry.Usable (registry : Registry) (kernelDir : Path) (s : Session) : Prop where
  rooted : s.tree.Rooted
  named : ∀ target r, registry.Gives kernelDir target r → r.linkerScript.name ≠ "linker.ld"
  free : ∀ target r, registry.Gives kernelDir target r →
    s.tree.find? r.activeScript ≠ some .directory
  canLog : s.CanLog
  apart : ∀ p ∈ s.logFile, ∀ target r, registry.Gives kernelDir target r →
    p.place s.tree.current ≠ r.linkerScript.place s.tree.current ∧
      p.place s.tree.current ≠ r.activeScript.place s.tree.current

/-- What any calls leave of a session: files are stored where scripts are put in force, and in the
log file; and where a script was put in force last, it is. -/
structure Registry.Leaves (registry : Registry) (kernelDir : Path) (s : Session)
    (done : List (Bool × Except Failure Resolved)) (s' : Session) : Prop where
  logFile : s'.logFile = s.logFile
  canLog : s'.CanLog
  alters : s.tree.Alters (registry.slots kernelDir s.tree.current ∪ s.logPlaces) s'.tree
  script : ∀ place ∉ s.logPlaces, ∀ r, inForce s.tree.current place done = some r →
    ∃ c, s.tree.read r.linkerScript = .ok c ∧ s'.tree.content? place = some c
  other : ∀ place ∉ s.logPlaces, inForce s.tree.current place done = none →
    s'.tree.node? place = s.tree.node? place

namespace Registry.Usable

variable {registry : Registry} {kernelDir : Path} {s s' s'' : Session}
  {target : Target} {activate : Bool} {r : Resolved} {result : Except Failure Resolved}
  {done : List (Bool × Except Failure Resolved)} {place : List String} {c : Content}

/-- No script is where one is put in force, or the log file is. -/
theorem script_notMem (h : registry.Usable kernelDir s)
    (hgives : registry.Gives kernelDir target r)
    (hplace : s.tree.locate r.linkerScript = .ok place)
    (hnode : s.tree.node? place ≠ some .directory) :
    place ∉ registry.slots kernelDir s.tree.current ∪ s.logPlaces := by
  rintro (⟨target', r', hgives', rfl⟩ | ⟨p, hp, hlogged⟩)
  · have hlast := h.rooted.getLast?_of_locate hplace hnode
    rw [hgives'.getLast?_active] at hlast
    exact h.named target r hgives (Option.some.inj hlast).symm
  · refine (h.apart p hp target r hgives).1 ?_
    rw [← FileTree.place_of_locate hlogged, FileTree.place_of_locate hplace]

/-- A script is read as it was at the start. -/
theorem read_script_iff (h : registry.Usable kernelDir s)
    (halters : s.tree.Alters (registry.slots kernelDir s.tree.current ∪ s.logPlaces) s'.tree)
    (hgives : registry.Gives kernelDir target r) :
    s'.tree.read r.linkerScript = .ok c ↔ s.tree.read r.linkerScript = .ok c :=
  halters.read_iff fun _ => h.script_notMem hgives

/-- Where a script is to be put in force there is no directory, and not the script. -/
theorem slot_free (h : registry.Usable kernelDir s)
    (halters : s.tree.Alters (registry.slots kernelDir s.tree.current ∪ s.logPlaces) s'.tree)
    (hgives : registry.Gives kernelDir target r)
    (hplace : s'.tree.locate r.activeScript = .ok place) :
    s'.tree.node? place ≠ some .directory ∧ s'.tree.locate r.linkerScript ≠ .ok place := by
  have hslot := halters.locate_iff.1 hplace
  have hfree : s.tree.node? place ≠ some .directory := by
    have hfind := h.free target r hgives
    rwa [FileTree.find?, hslot] at hfind
  refine ⟨fun hd => hfree ((halters.directory place).1 hd), fun hscript => ?_⟩
  exact h.script_notMem hgives (halters.locate_iff.1 hscript) hfree
    (.inl ⟨target, r, hgives, (FileTree.place_of_locate hslot).symm⟩)

theorem leaves_nil (h : registry.Usable kernelDir s) : registry.Leaves kernelDir s [] s :=
  ⟨rfl, h.canLog, .refl .., fun _ _ _ hr => (nomatch hr), fun _ _ _ => rfl⟩

/-- A call after some others fails and has changed nothing, or gives the parameters of the target,
and has changed nothing either, or has stored its script in the place of the one in force. -/
theorem call_cases (h : registry.Usable kernelDir s) (hs : registry.Leaves kernelDir s done s')
    (hrun : (registry.resolve kernelDir target activate).run.run s' = (result, s'')) :
    (∃ e, result = .error e ∧ s'' = s' ∧ (e.kind = .configuration ∨
        ∃ r fault, registry.Gives kernelDir target r ∧
          (s'.tree.isFile r.linkerScript = .error fault ∨
            (activate = true ∧ s'.tree.locate r.activeScript = .error fault)))) ∨
      ∃ r, result = .ok r ∧ registry.Gives kernelDir target r ∧
        ((activate = false ∧ s'' = s') ∨ (activate = true ∧ ∃ c,
          s.tree.read r.linkerScript = .ok c ∧ s'.tree.read r.linkerScript = .ok c ∧
          s''.tree.read r.activeScript = .ok c ∧
          s'.tree.Alters (insert (r.activeScript.place s.tree.current) s.logPlaces) s''.tree ∧
          s''.logFile = s'.logFile ∧ s''.CanLog)) := by
  have hcurrent := hs.alters.current
  have hplaces := Session.logPlaces_of_alters hs.alters hs.logFile
  rcases resolve_cases hrun with ⟨e, rfl, rfl, hkind | ⟨r, fault, hgives, hfault⟩⟩ |
    ⟨r, c, hgives, hread, hended⟩
  · exact .inl ⟨e, rfl, rfl, .inl hkind⟩
  · exact .inl ⟨e, rfl, rfl, .inr ⟨r, fault, hgives, .inl hfault⟩⟩
  rcases hended with ⟨rfl, rfl, rfl⟩ | ⟨rfl, hended⟩
  · exact .inr ⟨r, rfl, hgives, .inl ⟨rfl, rfl⟩⟩
  have hlog : ∀ p ∈ s'.logFile, p.place s'.tree.current ≠ r.activeScript.place s'.tree.current := by
    rw [hs.logFile, hcurrent]
    exact fun p hp => (h.apart p hp target r hgives).2
  rcases hended with ⟨rfl, hyields⟩ | ⟨e, rfl, hfailed⟩
  · rcases Resolved.activate_cases hread hs.canLog hlog hyields with ⟨_, hfault, -⟩ |
      ⟨place, -, hplace, halters, hc, hfile, hcan⟩
    · cases hfault
    · rw [hplaces, FileTree.place_of_locate hplace, hcurrent] at halters
      refine .inr ⟨r, rfl, hgives, .inr ⟨rfl, c, (h.read_script_iff hs.alters hgives).1 hread,
        hread, ?_, halters, hfile, hcan⟩⟩
      exact FileTree.read_eq_ok.2 ⟨place, halters.locate_iff.2 hplace, hc⟩
  · rcases Resolved.activate_cases hread hs.canLog hlog hfailed with ⟨fault, hfault, rfl, hcopy⟩ |
      ⟨_, hfault, -⟩
    · cases hfault
      refine .inl ⟨_, rfl, rfl, .inr ?_⟩
      cases hplace : s''.tree.locate r.activeScript with
      | error fault => exact ⟨r, fault, hgives, .inr ⟨rfl, hplace⟩⟩
      | ok place =>
        -- Nothing is in the way of a copy there.
        obtain ⟨hfree, hne⟩ := h.slot_free hs.alters hgives hplace
        have hcopied := FileTree.copyFile_eq_ok.2 ⟨c, place, hread, hplace, hne, hfree, rfl⟩
        cases hcopy.symm.trans hcopied
    · cases hfault

/-- One more call leaves what calls leave. -/
theorem leaves_concat (h : registry.Usable kernelDir s)
    (hs : registry.Leaves kernelDir s done s')
    (hrun : (registry.resolve kernelDir target activate).run.run s' = (result, s'')) :
    registry.Leaves kernelDir s (done ++ [(activate, result)]) s'' := by
  -- A call that changes nothing puts nothing in force.
  have hsame : (∀ place, putInForce s.tree.current place (activate, result) = none) → s'' = s' →
      registry.Leaves kernelDir s (done ++ [(activate, result)]) s'' := by
    rintro hnone rfl
    refine ⟨hs.logFile, hs.canLog, hs.alters, fun place hplace r hr => ?_,
      fun place hplace hr => ?_⟩
    · exact hs.script place hplace r (inForce_concat_of_none (hnone place) done ▸ hr)
    · exact hs.other place hplace (inForce_concat_of_none (hnone place) done ▸ hr)
  rcases h.call_cases hs hrun with ⟨e, rfl, heq, -⟩ | ⟨r, rfl, hgives, ⟨rfl, heq⟩ |
    ⟨rfl, c, hread, -, hslot, halters, hfile, hcan⟩⟩
  · refine hsame (fun place => ?_) heq
    cases activate <;> rfl
  · exact hsame (fun _ => rfl) heq
  have hcurrent := halters.current.trans hs.alters.current
  have hput : ∀ place, r.activeScript.place s.tree.current ≠ place →
      putInForce s.tree.current place (true, .ok r) = none := fun place hne => if_neg hne
  have hself : putInForce s.tree.current (r.activeScript.place s.tree.current) (true, .ok r) =
      some r := if_pos rfl
  have hkept : ∀ place ∉ s.logPlaces, r.activeScript.place s.tree.current ≠ place →
      s''.tree.node? place = s'.tree.node? place := by
    intro place hplace hne
    refine halters.node place ?_
    rw [Set.mem_insert_iff, not_or]
    exact ⟨hne.symm, hplace⟩
  refine ⟨hfile.trans hs.logFile, hcan, hs.alters.trans (halters.mono ?_), ?_, ?_⟩
  · exact Set.insert_subset (.inl ⟨target, r, hgives, rfl⟩) Set.subset_union_right
  · intro place hplace r' hr'
    by_cases heq : r.activeScript.place s.tree.current = place
    · subst heq
      rw [inForce_concat_of_some hself] at hr'
      cases hr'
      refine ⟨c, hread, ?_⟩
      have hfileAt := FileTree.fileAt?_of_read hslot
      rwa [FileTree.fileAt?, hcurrent] at hfileAt
    · rw [inForce_concat_of_none (hput place heq)] at hr'
      obtain ⟨c', hread', hc'⟩ := hs.script place hplace r' hr'
      refine ⟨c', hread', ?_⟩
      rw [FileTree.content?, hkept place hplace heq]
      exact hc'
  · intro place hplace hnone
    by_cases heq : r.activeScript.place s.tree.current = place
    · subst heq
      rw [inForce_concat_of_some hself] at hnone
      cases hnone
    · rw [inForce_concat_of_none (hput place heq)] at hnone
      exact (hkept place hplace heq).trans (hs.other place hplace hnone)

theorem leaves_resolveEach (h : registry.Usable kernelDir s) (calls : List (Target × Bool)) :
    registry.Leaves kernelDir s (registry.resolveEach kernelDir calls s).1
      (registry.resolveEach kernelDir calls s).2 := by
  induction calls using List.reverseRecOn with
  | nil => exact h.leaves_nil
  | append_singleton calls call ih =>
    rw [resolveEach, List.foldl_concat]
    exact h.leaves_concat ih rfl

/-- Whatever targets were resolved before, and however that ended: where a script is put in force
there is the one of the build that was last to put its script there, and the file that was there at
the start if there is no such build; all else is as it was, the scripts among it. One more call, if
it fails, changes nothing. It fails because the configuration is wrong, or because one of the two
paths cannot be followed. If it gives a build, that has the features of the target, each once and in
order. It stores the script of the target in the place of the one in force, and nothing else, if it
is asked to. -/
theorem script_in_force (h : registry.Usable kernelDir s) (calls : List (Target × Bool)) :
    let done := (registry.resolveEach kernelDir calls s).1
    let t := (registry.resolveEach kernelDir calls s).2
    (∀ place ∉ s.logPlaces, match inForce s.tree.current place done with
      | some r => ∃ c, s.tree.read r.linkerScript = .ok c ∧ t.tree.content? place = some c
      | none => t.tree.node? place = s.tree.node? place) ∧
    (∀ target r c, registry.Gives kernelDir target r →
      (t.tree.read r.linkerScript = .ok c ↔ s.tree.read r.linkerScript = .ok c)) ∧
    ∀ target activate,
      (∀ e t', (registry.resolve kernelDir target activate).run.run t = (.error e, t') → t' = t ∧
        (e.kind = .configuration ∨ ∃ r fault, registry.Gives kernelDir target r ∧
          (t.tree.isFile r.linkerScript = .error fault ∨
            (activate = true ∧ t.tree.locate r.activeScript = .error fault)))) ∧
      ∀ r t', Yields (registry.resolve kernelDir target activate) t r t' →
        registry.Gives kernelDir target r ∧
        (∃ architecture, registry.architectures.lookup target.architecture = some architecture ∧
          r.features.head? = some architecture.feature ∧
          ListsOnce (architecture.feature :: s!"board_{target.board}" :: target.features)
            r.features) ∧
        (activate = false → t' = t) ∧
        (activate = true →
          (∃ c, t.tree.read r.linkerScript = .ok c ∧ t'.tree.read r.activeScript = .ok c) ∧
          ∀ place ∉ s.logPlaces, place ≠ r.activeScript.place s.tree.current →
            t'.tree.node? place = t.tree.node? place) := by
  have hleaves := h.leaves_resolveEach calls
  generalize registry.resolveEach kernelDir calls s = run at hleaves
  refine ⟨fun place hplace => ?_, fun target r c hgives => ?_, fun target activate =>
    ⟨fun e t' hrun => ?_, fun r t' hyields => ?_⟩⟩
  · cases hforce : inForce s.tree.current place run.1 with
    | none => exact hleaves.other place hplace hforce
    | some r => exact hleaves.script place hplace r hforce
  · exact h.read_script_iff hleaves.alters hgives
  · rcases h.call_cases hleaves hrun with ⟨e', he, heq, hcause⟩ | ⟨r, he, -⟩
    · cases he
      exact ⟨heq, hcause⟩
    · cases he
  · rcases h.call_cases hleaves hyields with ⟨e, he, -⟩ | ⟨r', he, hgives, hended⟩
    · cases he
    cases he
    refine ⟨hgives, ?_, ?_, ?_⟩
    · obtain ⟨architecture, board, hcheck, rfl⟩ := hgives
      have hfeatures := listsOnce_featureList architecture target
      exact ⟨architecture, (of_check hcheck).2.2.2, hfeatures.head?, hfeatures⟩
    · rintro rfl
      rcases hended with ⟨-, heq⟩ | ⟨hfalse, -⟩
      · exact heq
      · cases hfalse
    · rintro rfl
      rcases hended with ⟨hfalse, -⟩ | ⟨-, c, -, hread, hslot, halters, -⟩
      · cases hfalse
      refine ⟨⟨c, hread, hslot⟩, fun place hplace hne => halters.node place ?_⟩
      rw [Set.mem_insert_iff, not_or]
      exact ⟨hne, hplace⟩

end Registry.Usable

/-! ### The boards that are known -/

/-- No board that is known has a script that is called as the one in force. -/
theorem Registry.Gives.name_ne_of_standard {kernelDir : Path} {target : Target} {r : Resolved}
    (h : Registry.standard.Gives kernelDir target r) : r.linkerScript.name ≠ "linker.ld" := by
  obtain ⟨architecture, board, hcheck, rfl⟩ := h
  obtain ⟨hboard, -⟩ := of_check hcheck
  obtain ⟨before, after, hboards, -⟩ := List.lookup_eq_some_iff.1 hboard
  have hmem : (target.board, board) ∈ Registry.standard.boards :=
    hboards ▸ List.mem_append_right _ List.mem_cons_self
  have hname : ∀ {name : String}, Path.ofString name = ⟨"", [name]⟩ → name ≠ "linker.ld" →
      (kernelDir / architecture.linkerDir / name).name ≠ "linker.ld" := by
    intro name hspelled hne
    rw [Path.name, getLast?_div _ hspelled]
    exact hne
  simp only [Registry.standard, List.mem_cons, Prod.mk.injEq, List.not_mem_nil, or_false] at hmem
  rcases hmem with ⟨-, rfl⟩ | ⟨-, rfl⟩ | ⟨-, rfl⟩ <;> exact hname rfl (by decide)

/-- The kernel's sources, as far as two boards of one architecture have linker scripts there. -/
def scripts : Session where
  tree := (FileTree.empty []).putNode ["src"] .directory
    |>.putNode ["src", "hal"] .directory
    |>.putNode ["src", "hal", "arch"] .directory
    |>.putNode ["src", "hal", "arch", "loongarch"] .directory
    |>.putNode ["src", "hal", "arch", "loongarch", "linker-laqemu.ld"]
      (.file (Content.ofBytes [1]) false)
    |>.putNode ["src", "hal", "arch", "loongarch", "linker-la2k1000.ld"]
      (.file (Content.ofBytes [2]) false)
  clock := "00:00:00.000"
  searchPath := ""

theorem rooted_scripts : scripts.tree.Rooted := by
  have hnode : ∀ place, (FileTree.empty []).node? place =
      if [] = place then some .directory else none := by
    intro place
    have hnodes : (FileTree.empty []).nodes =
        (∅ : Std.TreeMap (List String) Host.Node).insert [] .directory := rfl
    rw [FileTree.node?, hnodes]
    simp [Std.TreeMap.getElem?_insert]
  have hempty : (FileTree.empty []).Rooted := by
    refine ⟨hnode [], hnode [], fun place name h => ?_⟩
    rw [hnode, if_neg (by simp)] at h
    exact absurd rfl h
  refine hempty.putNode [] ?_ ?_ _ |>.putNode ["src"] ?_ ?_ _
    |>.putNode ["src", "hal"] ?_ ?_ _ |>.putNode ["src", "hal", "arch"] ?_ ?_ _
    |>.putNode ["src", "hal", "arch", "loongarch"] ?_ ?_ _
    |>.putNode ["src", "hal", "arch", "loongarch"] ?_ ?_ _
  all_goals simp [FileTree.node?_putNode, hnode]

theorem usable_scripts : Registry.standard.Usable ⟨"", []⟩ scripts := by
  have hfree : ∀ directory ∈ ["src/hal/arch/riscv", "src/hal/arch/loongarch"],
      (scripts.tree.find? ((⟨"", []⟩ : Path) / directory / "linker.ld")).isNone = true := by
    decide +kernel
  refine ⟨rooted_scripts, fun _ _ hgives => hgives.name_ne_of_standard, ?_, ?_, ?_⟩
  · rintro target r ⟨architecture, board, hcheck, rfl⟩ hdirectory
    obtain ⟨-, -, -, harchitecture⟩ := of_check hcheck
    obtain ⟨before, after, hknown, -⟩ := List.lookup_eq_some_iff.1 harchitecture
    have hmem : (target.architecture, architecture) ∈ Registry.standard.architectures :=
      hknown ▸ List.mem_append_right _ List.mem_cons_self
    have hnone := hfree architecture.linkerDir (by
      simp only [Registry.standard, List.mem_cons, Prod.mk.injEq, List.not_mem_nil,
        or_false] at hmem
      rcases hmem with ⟨-, rfl⟩ | ⟨-, rfl⟩ <;> decide)
    have hsome : scripts.tree.find? ((⟨"", []⟩ : Path) / architecture.linkerDir / "linker.ld") =
      some .directory := hdirectory
    rw [hsome] at hnone
    cases hnone
  · rintro p ⟨⟩
  · rintro p ⟨⟩

/-- A target of each of the two boards, then one in a mode that there is not, then one of which the
parameters alone are asked for. -/
def scriptCalls : List (Target × Bool) :=
  [(⟨"loongarch64", "laqemu", "debug", []⟩, true),
   (⟨"loongarch64", "la2k1000", "release", ["fs_trace", "loongarch"]⟩, true),
   (⟨"loongarch64", "laqemu", "fast", []⟩, true),
   (⟨"loongarch64", "laqemu", "release", []⟩, false)]

/-- Two boards share the place of the script in force, and it is that of the second one which is
there after the calls. -/
theorem exists_script_in_force :
    Registry.standard.Usable ⟨"", []⟩ scripts ∧
      ∃ c, (Registry.standard.resolveEach ⟨"", []⟩ scriptCalls scripts).2.tree.content?
        ["src", "hal", "arch", "loongarch", "linker.ld"] = some c ∧ c.toBytes = [2] := by
  refine ⟨usable_scripts, ?_⟩
  obtain ⟨hforce, -⟩ := usable_scripts.script_in_force scriptCalls
  have hplace := hforce ["src", "hal", "arch", "loongarch", "linker.ld"] (by rintro ⟨p, ⟨⟩, -⟩)
  have hlast : (inForce [] ["src", "hal", "arch", "loongarch", "linker.ld"]
      (Registry.standard.resolveEach ⟨"", []⟩ scriptCalls scripts).1).map (·.linkerScript) =
      some ⟨"", ["src", "hal", "arch", "loongarch", "linker-la2k1000.ld"]⟩ := by
    decide +kernel
  obtain ⟨r, hr, hscript⟩ := Option.map_eq_some_iff.1 hlast
  have hcurrent : scripts.tree.current = [] := rfl
  rw [hcurrent, hr] at hplace
  obtain ⟨c, hread, hc⟩ := hplace
  refine ⟨c, hc, ?_⟩
  have hbytes : (scripts.tree.read ⟨"", ["src", "hal", "arch", "loongarch",
      "linker-la2k1000.ld"]⟩).toOption.map (·.toBytes) = some [2] := by
    decide +kernel
  rw [← hscript, hread] at hbytes
  exact Option.some.inj hbytes

end BootImage
