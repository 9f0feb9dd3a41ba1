import BootImage.Proofs.Fat.Runs

/-!
# Writes that fail

Whatever refuses the writing of a file does so before anything is changed, with one exception: a
source that ends too early is noticed while it is copied. By then the file that was there before is
gone, and the clusters that were taken for the new one belong to nobody.

## Main definitions

* `Disk.Unchanged`: what can be read of a volume is as it was.

## Main results

* `Disk.Writes.failed`: a failed write changes a disk just if its source was too short.
* `Disk.Fresh.failed_writeFile`: so it is in every state that calls lead to.
-/

namespace BootImage.Fat

namespace Disk

/-- The free clusters, the table, the directories and the files are as they were. -/
structure Unchanged (d d' : Disk) : Prop where
  free : d'.volume.free = d.volume.free
  link : ∀ x, d'.volume.table.link x = d.volume.table.link x
  entries : ∀ dir, d'.entries dir = d.entries dir
  read : ∀ path, d'.read path = d.read path

variable {d d' : Disk} {G : Catalog} {K : Owner → List Nat} {loose : List Nat} {path : String}
  {source : Content} {size : Int} {e : Error}

/-- A record that is taken out is missing from the entries. -/
theorem entries_ne_of_replace {K' : Owner → List Nat} {loose' : List Nat} {dir n : Nat}
    {f f' : Folder} {r : Record} (h : d.Holds G K loose) (hw : d.Writable) (hf : G dir = some f)
    (h' : d'.Holds (G.replace dir f') K' loose') (hw' : d'.Writable) (hadds : f'.Adds n r f) :
    d'.entries dir ≠ d.entries dir := by
  rw [h.entries_eq hw.1 hf, h'.entries_eq hw'.1 (Catalog.replace_self ..)]
  intro heq
  have hlen := congrArg List.length (Except.ok.inj heq)
  obtain ⟨-, before, after, hbefore, hafter⟩ := hadds
  rw [Folder.entries, Folder.entries, List.length_map, List.length_map, hbefore, hafter,
    List.length_append, List.length_append, List.length_cons] at hlen
  omega

/-- A write that fails leaves the disk as it is, unless its source is too short. Then there is less
to be found than before. -/
theorem Writes.failed (hwrites : d.Writes G loose path source size (.error e) d')
    (h : d.Holds G K loose) (hw : d.Writable) (hsize : 0 ≤ size) :
    (d' = d ∧ ∀ path missing, e ≠ .shortSource path missing) ∨
      (¬ d.Unchanged d' ∧ e = .shortSource path (size.toNat - source.size) ∧
        source.size < size.toNat) := by
  cases hwrites with
  | refused he => exact .inl ⟨rfl, he⟩
  | fresh _ _ _ _ hstores =>
    cases hstores with
    | negative hneg => omega
    | short hshort _ _ hless =>
      refine .inr ⟨fun hsame => ?_, rfl, hshort⟩
      have := hsame.free
      omega
  | @replaced dir _ _ _ _ _ _ _ _ _ _ _ hf _ _ hadds hholds₁ halike₁ hstores =>
    cases hstores with
    | negative hneg => omega
    | short hshort hholds halike hless =>
      refine .inr ⟨fun hsame => ?_, rfl, hshort⟩
      have hw' := (halike₁.trans halike).writable hw
      exact entries_ne_of_replace h hw hf hholds hw' hadds (hsame.entries dir)

/-- A write that fails, in any state that calls lead to, leaves the disk as it is, unless its source
has fewer bytes than the file is to have and that is what made it fail. In that case, and in no
other, the volume is not what it was. -/
theorem Fresh.failed_writeFile (h : d.Fresh) (calls : List Call) (path : String)
    (source : Content) {size : Int} (hsize : 0 ≤ size) {e : Error}
    (hfailed : ((Call.writeFile path source size).on (d.after calls)).1 = .error e) :
    (((Call.writeFile path source size).on (d.after calls)).2 = d.after calls ∧
        ∀ path missing, e ≠ .shortSource path missing) ∨
      (¬ (d.after calls).Unchanged ((Call.writeFile path source size).on (d.after calls)).2 ∧
        e = .shortSource path (size.toNat - source.size) ∧ source.size < size.toNat) := by
  obtain ⟨hw, G, K, loose, hholds, -⟩ := h.after calls
  obtain ⟨result, d', hrun, hwrites⟩ := Edit.writeFile_on hholds hw.1 hw.2 path source size
  have hon : (Call.writeFile path source size).on (d.after calls) = (result, d') := hrun
  rw [hon] at hfailed ⊢
  subst hfailed
  exact hwrites.failed hholds hw hsize

/-- A file of four bytes from a source of two, on a new volume. -/
theorem exists_changed_by_failed_writeFile : ∃ d : Disk, d.Fresh ∧
    ((Call.writeFile "a" (Content.ofBytes [1, 2]) 4).on (d.after [])).1 =
      .error (.shortSource "a" 2) ∧
    ¬ (d.after []).Unchanged
      ((Call.writeFile "a" (Content.ofBytes [1, 2]) 4).on (d.after [])).2 := by
  obtain ⟨d, hfresh⟩ := exists_fresh
  have hspelling : spellingOf "a" (fun _ => false) =
      .ok ⟨none, asciiBytes "A          ".toList, 8⟩ := by decide
  have hnot : ¬ d.Refuses d.newCatalog "a" 4 :=
    hfresh.not_refuses (by decide) hspelling (by decide) (by decide)
  obtain ⟨hopen, hwritable, hholds⟩ := hfresh.holds
  obtain ⟨result, d', hrun, hwrites⟩ :=
    Edit.writeFile_on hholds hopen hwritable "a" (Content.ofBytes [1, 2]) 4
  have hshort : ¬ (4 : Int).toNat ≤ (Content.ofBytes [1, 2]).size := by simp
  have hresult : result = .error (.shortSource "a" 2) := by
    cases hwrites with
    | refused _ hwhy => exact absurd hwhy hnot
    | fresh _ _ _ _ hstores =>
      cases hstores with
      | negative hneg => exact absurd hneg (by decide)
      | short => simp
      | stored _ hsize => exact absurd hsize hshort
    | replaced _ _ _ _ _ _ _ _ hstores =>
      cases hstores with
      | negative hneg => exact absurd hneg (by decide)
      | short => simp
      | stored _ hsize => exact absurd hsize hshort
  have hfailed : ((Call.writeFile "a" (Content.ofBytes [1, 2]) 4).on (d.after [])).1 =
      .error (.shortSource "a" 2) := (congrArg Prod.fst hrun).trans hresult
  refine ⟨d, hfresh, hfailed, ?_⟩
  rcases hfresh.failed_writeFile [] "a" (Content.ofBytes [1, 2]) (by decide) hfailed with
    ⟨-, hne⟩ | ⟨hchanged, -, -⟩
  · exact absurd rfl (hne "a" 2)
  · exact hchanged

end Disk

end BootImage.Fat
