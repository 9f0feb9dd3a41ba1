import BootImage.Proofs.Fat.Changes
import BootImage.Proofs.Fat.Filling
import BootImage.Proofs.Fat.Ownership

/-!
# Entries are found by their names

A name finds an entry by what is read of its name or by its short name, whichever comes first in the
directory. New aliases are told apart from the short names there, and from nothing else, so the
alias of one name may be read like another name. A name that is contested in this way may find the
wrong entry. Every other name finds its own: before an entry is added nothing answers to its name,
and what is added later answers to it only by an alias.

## Main definitions

* `Call.names`: the names in the path of a call.

## Main results

* `Disk.Holds.named_on`: one call keeps the names of a catalog told apart.
* `Disk.Fresh.lookup_after`: which entries are found by their names, after any calls.
-/

namespace BootImage.Fat

/-- The names in the path of a call. -/
def Call.names : Call → List String
  | makeDirectory path => splitPath path
  | writeFile path _ _ => splitPath path
  | flush => []

namespace Disk

variable {d : Disk} {G : Catalog} {K : Owner → List Nat} {loose : List Nat} {U : Usage}

/-- A call with legible names keeps the names of a catalog told apart, whether or not it fails. -/
theorem Holds.named_on (h : d.Holds G K loose) (hw : d.Writable)
    (hnamed : G.Named U) {call : Call}
    (hnames : ∀ name ∈ call.names, U.used name) : (call.on d).2.Writable ∧
      ∃ G' K' loose', (call.on d).2.Holds G' K' loose' ∧ G'.Named U := by
  cases call with
  | makeDirectory path =>
    obtain ⟨result, d', G', K', found, hrun, hmakes, -, hholds', halike⟩ :=
      Edit.makeDirectory_cases h hw.1 hw.2 path
    rw [Call.on_makeDirectory hrun]
    exact ⟨halike.writable hw, G', K', loose, hholds', hmakes.named hnamed hnames⟩
  | writeFile path source size =>
    obtain ⟨result, d', hrun, hwrites⟩ := Edit.writeFile_on h hw.1 hw.2 path source size
    have hon : (Call.writeFile path source size).on d = (result, d') := hrun
    obtain ⟨halike, hafter⟩ := hwrites.named h hnamed hnames
    rw [hon]
    exact ⟨halike.writable hw, hafter⟩
  | flush =>
    obtain ⟨hflush, hholds'⟩ := h.flush hw.1 hw.2
    rw [Call.on_flush hflush]
    exact ⟨⟨hw.1, hw.2⟩, G, K, loose, hholds', hnamed⟩

/-- Calls with legible names keep the names of a catalog told apart. -/
theorem Holds.named_after (h : d.Holds G K loose) (hw : d.Writable)
    (hnamed : G.Named U) {calls : List Call}
    (hnames : ∀ call ∈ calls, ∀ name ∈ call.names, U.used name) : (d.after calls).Writable ∧
      ∃ G' K' loose', (d.after calls).Holds G' K' loose' ∧ G'.Named U := by
  induction calls generalizing d G K loose with
  | nil => exact ⟨hw, G, K, loose, h, hnamed⟩
  | cons call calls ih =>
    rw [List.forall_mem_cons] at hnames
    obtain ⟨hw', G', K', loose', h', hnamed'⟩ := h.named_on hw hnamed hnames.1
    exact ih h' hw' hnamed' hnames.2

/-- In every state of a new volume that calls with legible names lead to, each entry is found by its
own name, and no two entries of a directory answer to the same name. This leaves out names that are
contested: those that an alias of another name in the calls is read like. -/
theorem Fresh.lookup_after (h : d.Fresh) {calls : List Call}
    (hlegible : ∀ call ∈ calls, ∀ name ∈ call.names, Legible name.toList) {dir : Nat}
    (hdir : (d.after calls).HasDirectory dir) :
    ∃ es, (d.after calls).entries dir = .ok es ∧
      (∀ e ∈ es, ¬ Contested (fun name => ∃ call ∈ calls, name ∈ call.names) (key e.name) →
        (d.after calls).lookup dir e.name = .ok (some e)) ∧
      ∀ k, ¬ Contested (fun name => ∃ call ∈ calls, name ∈ call.names) k →
        ∀ e ∈ es, ∀ e' ∈ es, answersTo k e = true → answersTo k e' = true → e = e' := by
  obtain ⟨hopen, hwritable, hholds⟩ := h.holds
  obtain ⟨hw, G, K, loose, hholds', hnamed⟩ := hholds.named_after ⟨hopen, hwritable⟩
    (U := .marked (fun name => ∃ call ∈ calls, name ∈ call.names)
      fun name ⟨call, hcall, hname⟩ => hlegible call hcall name hname) (named_newCatalog d)
    fun call hcall name hname => ⟨call, hcall, hname⟩
  obtain ⟨f, hf⟩ := hholds'.exists_folder hw hdir
  refine ⟨f.entries, hholds'.entries_eq hw.1 hf, fun e he hfree => ?_,
    fun k hfree e he e' he' hanswers hanswers' => ?_⟩
  · obtain ⟨x, hx, rfl⟩ := List.mem_map.1 he
    have hfind : f.find (x.2.entry x.1).name = some x := (hnamed dir f hf).find_shown hx hfree
    rw [hholds'.lookup_eq hw.1 hf, hfind, Option.map_some]
  · obtain ⟨x, hx, rfl⟩ := List.mem_map.1 he
    obtain ⟨y, hy, rfl⟩ := List.mem_map.1 he'
    rw [(hnamed dir f hf).eq_of_answersTo hfree hx hy hanswers hanswers']

/-- Two files in the root directory of a new volume, of which one has an alias, are found by their
names. -/
theorem exists_lookup_after_file : ∃ (d : Disk) (calls : List Call), d.Fresh ∧
    calls = [.writeFile "Read me.txt" (Content.ofBytes [1, 2]) 2,
      .writeFile "sh" (Content.ofBytes [3]) 1] ∧
    (∀ call ∈ calls, ∀ name ∈ call.names, Legible name.toList) ∧
    (d.after calls).HasDirectory d.volume.geometry.rootCluster ∧
    (∃ e, e.name = "Read me.txt" ∧ e.short = asciiBytes "README~1TXT".toList ∧
      (d.after calls).lookup d.volume.geometry.rootCluster "Read me.txt" = .ok (some e)) ∧
    ∃ e, e.name = "sh" ∧
      (d.after calls).lookup d.volume.geometry.rootCluster "sh" = .ok (some e) := by
  obtain ⟨d, hfresh⟩ := exists_fresh
  obtain ⟨calls, hcalls⟩ : ∃ calls : List Call, calls =
      [.writeFile "Read me.txt" (Content.ofBytes [1, 2]) 2,
        .writeFile "sh" (Content.ofBytes [3]) 1] := ⟨_, rfl⟩
  have hplain : ∀ call ∈ calls, ∀ name ∈ call.names, Plain name := by
    rw [hcalls]
    decide
  have hlegible : ∀ call ∈ calls, ∀ name ∈ call.names, Legible name.toList :=
    fun call hcall name hname => (hplain call hcall name hname).legible
  obtain ⟨d', hdoes, halike, hfiles⟩ := hfresh.hasFiles.exists_fill
    [("Read me.txt", [1, 2]), ("sh", [3])] 0 rfl (by decide)
  have hafter : d.after calls = d' := hcalls ▸ hdoes.after_eq
  have hroot : (d.after calls).HasDirectory d.volume.geometry.rootCluster := by
    rw [hafter, ← halike.geometry]
    exact .root
  obtain ⟨es, hes, hfound, -⟩ := hfresh.lookup_after hlegible hroot
  obtain ⟨es', hes', hlisted⟩ := hfiles.exists_entries
  rw [hafter, ← halike.geometry] at hes
  cases hes.symm.trans hes'
  have hlookup : ∀ name short, Plain name → (∃ e ∈ es, e.name = name ∧ e.short = short) →
      ∃ e, e.name = name ∧ e.short = short ∧
        (d.after calls).lookup d.volume.geometry.rootCluster name = .ok (some e) := by
    rintro _ _ hname ⟨e, he, rfl, rfl⟩
    exact ⟨e, rfl, rfl, hfound e he hname.not_contested⟩
  obtain ⟨e, hname, -, hsh⟩ := hlookup "sh" (asciiBytes "SH         ".toList) (by decide)
    (hlisted _ List.mem_cons_self)
  exact ⟨d, calls, hfresh, hcalls, hlegible, hroot,
    hlookup _ _ (by decide) (hlisted _ (List.mem_cons_of_mem _ List.mem_cons_self)),
    e, hname, hsh⟩

end Disk

end BootImage.Fat
