import BootImage.Proofs.Fat.Filling
import BootImage.Proofs.Fat.Ownership

/-!
# What a call leaves alone

A call that succeeds adds entries to directories, and the writing of a file may take one out before.
All other entries stay as they are, with the bytes of the files that they are for, although the call
may have taken clusters, given others back, and written to slots between those of other entries.

On the catalog this is plain, since a step changes one folder by one record. What is listed of a
disk are the records of its catalog, and the bytes of a file are in its record, so the statement
about the disk needs no more than that the disk holds a catalog before and after.

## Main definitions

* `Disk.Lists`: the entries of a volume.
* `Disk.Amends`: some entries are taken out, others are added, and nothing else is touched.
* `Call.Amends`: what a call takes out and adds.

## Main results

* `Catalog.Makes.has`: the records that making directories adds.
* `Disk.Holds.amends`: what follows about the disk.
* `Disk.Fresh.amends_after`: so it is for every call in every state that calls lead to.
-/

namespace BootImage.Fat

/-! ### Records more and less -/

/-- The entry of a record, with the cluster of its directory. -/
def listing (x : Nat × Nat × Record) : Nat × DirEntry :=
  (x.1, x.2.2.entry x.2.1)

/-- Entries of directories each of which is for the directory of the next one. -/
def Nested : Nat → List (Nat × DirEntry) → Prop
  | _, [] => True
  | dir, (dir', e) :: rest => dir' = dir ∧ e.isDirectory = true ∧ Nested e.cluster rest

namespace Catalog

variable {G G' : Catalog} {root dir : Nat} {names : List String} {found : Option Nat}

/-- Making directories adds one record for each name of the path that is missing, the first one to
the directory that the other names lead to, and each of the others to that of the one before it. -/
theorem Makes.has (h : Makes root G dir names found G') (hfound : found ≠ none) :
    ∃ (done rest : List String) (last : Nat) (added : List (Nat × Nat × Record)),
      names = done ++ rest ∧ G.descend dir done = some last ∧
      (∀ name ∈ rest.head?, ∃ f, G last = some f ∧ f.find name = none) ∧
      added.length = rest.length ∧ Nested last (added.map listing) ∧
      ∀ x, G'.Has x ↔ G.Has x ∨ x ∈ added := by
  induction h with
  | @done G dir => exact ⟨[], [], dir, [], rfl, rfl, by simp, rfl, trivial, by simp⟩
  | @enter G G' dir n f r name rest found hf hfind hfolder _ ih =>
    obtain ⟨done, rest', last, added, rfl, hlast, hmissing, hlen, hnested, hhas⟩ := ih hfound
    refine ⟨name :: done, rest', last, added, rfl, ?_, hmissing, hlen, hnested, hhas⟩
    rw [descend, hf, Option.bind_some, hfind]
    simpa [hfolder] using hlast
  | blocked => exact absurd rfl hfound
  | refused => exact absurd rfl hfound
  | @create G G' dir n c f f' s name rest found hf hfind hs hnew hadds _ _ ih =>
    obtain ⟨done, rest', last, added, rfl, hlast, -, hlen, hnested, hhas⟩ := ih hfound
    -- The directory is new, so no name leads on from it.
    obtain rfl : done = [] := by
      cases done with
      | nil => rfl
      | cons name' done =>
        rw [descend, withFolder, if_pos rfl, Option.bind_some] at hlast
        cases hlast
    cases hlast
    have hfirst := has_withFolder (r := ⟨s, .folder c⟩) hf
      (fun c' hc' => by cases hc'; exact hnew) hadds (if dir = root then 0 else dir)
    refine ⟨[], name :: rest', dir, (dir, n, ⟨s, .folder c⟩) :: added, rfl, rfl, ?_,
      congrArg Nat.succ hlen, ⟨rfl, Record.isDirectory_entry .., hnested⟩, fun x => ?_⟩
    · rintro _ ⟨⟩
      exact ⟨f, hf, hfind⟩
    · rw [hhas, hfirst, List.mem_cons, or_assoc]

end Catalog

/-! ### What is listed -/

namespace Disk

/-- An entry is listed in the directory at a cluster. -/
def Lists (d : Disk) (dir : Nat) (e : DirEntry) : Prop :=
  d.HasDirectory dir ∧ ∃ es, d.entries dir = .ok es ∧ e ∈ es

/-- What is different after a change: the entries `gone` are not listed any more, and the entries
`added` are, each given with its directory. Every other entry is listed where it was, and the file
that it is for has the bytes that it had. -/
structure Amends (d d' : Disk) (gone added : List (Nat × DirEntry)) : Prop where
  listed : ∀ dir e, d'.Lists dir e ↔ d.Lists dir e ∧ (dir, e) ∉ gone ∨ (dir, e) ∈ added
  once : ∀ dir, d'.HasDirectory dir → ∃ es, d'.entries dir = .ok es ∧ es.Nodup
  bytes : ∀ dir e, d.Lists dir e → (dir, e) ∉ gone → e.isDirectory = false →
    ∃ bytes, d.bytesOf e = .ok bytes ∧ d'.bytesOf e = .ok bytes ∧ bytes.length = e.size

variable {d d' : Disk} {G G' : Catalog} {K K' : Owner → List Nat} {loose loose' : List Nat}

namespace Holds

/-- What is listed are the records of the catalog. -/
theorem lists_iff (h : d.Holds G K loose) (hw : d.Writable) {dir : Nat} {e : DirEntry} :
    d.Lists dir e ↔ ∃ x, G.Has x ∧ listing x = (dir, e) := by
  constructor
  · rintro ⟨hdir, es, hentries, he⟩
    obtain ⟨f, hf⟩ := h.exists_folder hw hdir
    obtain ⟨n, r, hr, rfl⟩ := h.exists_record hw hf hentries he
    exact ⟨(dir, n, r), ⟨f, hf, hr⟩, rfl⟩
  · rintro ⟨⟨dir, n, r⟩, ⟨f, hf, hr⟩, ⟨⟩⟩
    exact ⟨h.hasDirectory hw hf, _, h.entries_eq hw.1 hf, List.mem_map.2 ⟨_, hr, rfl⟩⟩

/-- No two records are listed alike. -/
theorem eq_of_listing (h : d.Holds G K loose) {x y : Nat × Nat × Record} (hx : G.Has x)
    (hy : G.Has y) (heq : listing x = listing y) : x = y := by
  obtain ⟨dir, n, r⟩ := x
  obtain ⟨dir', n', r'⟩ := y
  obtain ⟨f, hf, hr⟩ := hx
  obtain ⟨f', hf', hr'⟩ := hy
  obtain ⟨rfl, hentry⟩ := Prod.mk.inj heq
  obtain rfl : n = n' := by
    rw [← headD_slots_entry n r, ← headD_slots_entry n' r', hentry]
  cases hf.symm.trans hf'
  obtain ⟨_, _, _, hstands⟩ := h.exists_owner hf
  rw [hstands.eq_of_number hr hr']

/-- A disk whose catalog has some records less and others more lists some entries less and others
more. -/
theorem amends (h : d.Holds G K loose) (hw : d.Writable) (h' : d'.Holds G' K' loose')
    (hw' : d'.Writable) (gone added : List (Nat × Nat × Record)) (hgone : ∀ x ∈ gone, G.Has x)
    (hhas : ∀ x, G'.Has x ↔ G.Has x ∧ x ∉ gone ∨ x ∈ added) :
    d.Amends d' (gone.map listing) (added.map listing) := by
  have hstays : ∀ x, G.Has x → listing x ∉ gone.map listing → x ∉ gone := fun x _ hnot hx =>
    hnot (List.mem_map_of_mem hx)
  refine ⟨fun dir e => ?_, fun dir => h'.exists_entries hw', fun dir e he hnot hfile => ?_⟩
  · rw [h.lists_iff hw, h'.lists_iff hw']
    constructor
    · rintro ⟨x, hx, hlisting⟩
      rw [← hlisting]
      rcases (hhas x).1 hx with ⟨hx, hnot⟩ | hx
      · refine .inl ⟨⟨x, hx, rfl⟩, fun hmem => ?_⟩
        obtain ⟨y, hy, heq⟩ := List.mem_map.1 hmem
        exact hnot (h.eq_of_listing (hgone y hy) hx heq ▸ hy)
      · exact .inr (List.mem_map_of_mem hx)
    · rintro (⟨⟨x, hx, hlisting⟩, hnot⟩ | hmem)
      · exact ⟨x, (hhas x).2 (.inl ⟨hx, hstays x hx (hlisting ▸ hnot)⟩), hlisting⟩
      · obtain ⟨x, hx, hlisting⟩ := List.mem_map.1 hmem
        exact ⟨x, (hhas x).2 (.inr hx), hlisting⟩
  · obtain ⟨x, hx, hlisting⟩ := (h.lists_iff hw).1 he
    have hx' := (hhas x).2 (.inl ⟨hx, hstays x hx (hlisting ▸ hnot)⟩)
    obtain ⟨dir, n, ⟨s, b⟩⟩ := x
    cases hlisting
    obtain ⟨f, hf, hr⟩ := hx
    obtain ⟨f', hf', hr'⟩ := hx'
    rw [Record.isDirectory_entry] at hfile
    cases b with
    | folder => cases hfile
    | file c bytes =>
      exact ⟨bytes, h.bytesOf_eq hw.1 hf hr, h'.bytesOf_eq hw'.1 hf' hr', rfl⟩

end Holds

end Disk

/-! ### Calls -/

/-- What is different after a call that succeeded. Where directories were made there is one entry
more for each name of the path that was missing; where a file was written, its entry is there
instead of the one that was found under its name, if there was one. -/
def Call.Amends (call : Call) (d d' : Disk) : Prop :=
  match call with
  | .makeDirectory path => ∃ (done rest : List String) (dir : Nat) (added : List (Nat × DirEntry)),
      splitPath path = done ++ rest ∧ d.resolve done = .ok dir ∧
      (∀ name ∈ rest.head?, d.lookup dir name = .ok none) ∧
      added.length = rest.length ∧ Nested dir added ∧ d.Amends d' [] added
  | .writeFile path _ size => ∃ names name dir old e, splitPath path = names ++ [name] ∧
      d.resolve names = .ok dir ∧ d.lookup dir name = .ok old ∧
      (∀ e ∈ old, e.isDirectory = false) ∧ e.isDirectory = false ∧ (e.size : Int) = size ∧
      d.Amends d' (old.toList.map (dir, ·)) [(dir, e)]
  | .flush => d.Amends d' [] []

namespace Disk

variable {d d' : Disk} {G G' : Catalog} {K K' : Owner → List Nat} {loose loose' : List Nat}

/-- A file that was written is one record more, once the record that it replaces is taken out. -/
theorem Holds.amends_stored (h : d.Holds G K loose) (hw : d.Writable) (h' : d'.Holds G' K' loose')
    (hw' : d'.Writable) (gone : List (Nat × Nat × Record)) {G₁ : Catalog} {dir up n c : Nat}
    {f f' : Folder} {s : Spelling} {bytes : Bytes} (hgone : ∀ x ∈ gone, G.Has x)
    (hhas : ∀ x, G₁.Has x ↔ G.Has x ∧ x ∉ gone) (hf : G₁ dir = some f)
    (hadds : f.Adds n ⟨s, .file c bytes⟩ f') (hG' : G' = G₁.withFolder dir up f' (.file c bytes)) :
    d.Amends d' (gone.map listing) [(dir, Record.entry n ⟨s, .file c bytes⟩)] := by
  refine h.amends hw h' hw' gone [(dir, n, ⟨s, .file c bytes⟩)] hgone fun x => ?_
  have hadded := Catalog.has_withFolder (r := ⟨s, .file c bytes⟩) hf (by simp) hadds up x
  rw [hG', hadded, hhas, List.mem_singleton]

/-- What a call that succeeds makes different. -/
theorem Holds.amends_on (h : d.Holds G K loose) (hw : d.Writable) {call : Call}
    (hsupplied : call.Supplied) (hok : (call.on d).1 = .ok ()) : call.Amends d (call.on d).2 := by
  obtain ⟨f₀, hf₀, -⟩ := h.root
  cases call with
  | makeDirectory path =>
    obtain ⟨result, d', G', K', found, hrun, hmakes, hresult, hholds', halike⟩ :=
      Edit.makeDirectory_cases h hw.1 hw.2 path
    rw [Call.on_makeDirectory hrun] at hok ⊢
    cases result with
    | error e => cases hok
    | ok c =>
      have hfound : found ≠ none := by
        rw [(hresult c).1 rfl]
        exact Option.some_ne_none c
      obtain ⟨done, rest, last, added, hpath, hlast, hmissing, hlen, hnested, hhas⟩ :=
        hmakes.has hfound
      refine ⟨done, rest, last, added.map listing, hpath, ?_, fun name hname => ?_, ?_, hnested, ?_⟩
      · exact h.resolve_eq hw.1 hlast
      · obtain ⟨f, hf, hfind⟩ := hmissing name hname
        rw [h.lookup_eq hw.1 hf, hfind, Option.map_none]
      · rw [List.length_map, hlen]
      · refine h.amends hw hholds' (halike.writable hw) [] added (by simp) fun x => ?_
        rw [hhas, and_iff_left (List.not_mem_nil)]
  | writeFile path source size =>
    obtain ⟨result, d', hrun, hwrites⟩ := Edit.writeFile_on h hw.1 hw.2 path source size
    have hon : (Call.writeFile path source size).on d = (result, d') := hrun
    rw [hon] at hok ⊢
    cases hwrites with
    | refused => cases hok
    | @fresh dir name f result d' hname hdir hf hfind hstores =>
      obtain ⟨rfl, halike, K', s, n, c, f', -, hadds, hholds'⟩ := hstores.of_supplied hsupplied
      refine ⟨_, name, dir, none, Record.entry n ⟨s, .file c (source.read 0 size.toNat)⟩,
        (List.dropLast_append_getLast? _ hname).symm, h.resolve_eq hw.1 hdir, ?_, by simp,
        Record.isDirectory_entry .., hsupplied, ?_⟩
      · rw [h.lookup_eq hw.1 hf, hfind, Option.map_none]
      · exact h.amends_stored hw hholds' (halike.writable hw) [] (by simp) (by simp) hf hadds rfl
    | @replaced dir n₁ name f f₁ r d₁ K₁ result d' hname hdir hf hfind hfile hadds₁ hholds₁ halike₁
        hstores =>
      obtain ⟨rfl, halike, K', s, n, c, f', -, hadds, hholds'⟩ := hstores.of_supplied hsupplied
      have hr := Folder.mem_of_find hfind
      obtain ⟨_, _, _, hstands⟩ := h.exists_owner hf
      have hhas := Catalog.has_replace hf hadds₁ (hadds₁.number_new hstands)
      refine ⟨_, name, dir, some (r.entry n₁),
        Record.entry n ⟨s, .file c (source.read 0 size.toNat)⟩,
        (List.dropLast_append_getLast? _ hname).symm, h.resolve_eq hw.1 hdir, ?_, ?_,
        Record.isDirectory_entry .., hsupplied, ?_⟩
      · rw [h.lookup_eq hw.1 hf, hfind, Option.map_some]
      · rintro _ ⟨⟩
        rw [Record.isDirectory_entry, hfile]
      · refine h.amends_stored hw hholds' ((halike₁.trans halike).writable hw) [(dir, n₁, r)] ?_
          (fun x => ?_) (Catalog.replace_self ..) hadds rfl
        · rintro x hx
          rw [List.mem_singleton.1 hx]
          exact ⟨f, hf, hr⟩
        · rw [hhas, List.mem_singleton]
  | flush =>
    obtain ⟨hflush, hholds'⟩ := h.flush hw.1 hw.2
    rw [Call.on_flush hflush]
    exact h.amends hw hholds' ⟨hw.1, hw.2⟩ [] [] (by simp) (by simp)

/-- The image of a volume that was formatted keeps its length and its reserved sectors, but for
FSInfo, whatever calls there are. And in every state that calls lead to, a call that succeeds, with
a source that has the bytes that are asked of it, takes out and adds no entries but its own, and
leaves all others alone, with the bytes of their files. -/
theorem Fresh.amends_after (h : d.Fresh) :
    (∀ calls, d.SameReserved (d.after calls)) ∧
      ∀ (calls : List Call) (call : Call), call.Supplied → (call.on (d.after calls)).1 = .ok () →
        call.Amends (d.after calls) (call.on (d.after calls)).2 := by
  refine ⟨h.sameReserved_after, fun calls call hsupplied hok => ?_⟩
  obtain ⟨hw, G, K, loose, hholds, -⟩ := h.after calls
  exact hholds.amends_on hw hsupplied hok

/-- A file takes the place of another one, and a third one is left alone. -/
theorem exists_amends_after_file : ∃ d d₁ d₂ : Disk, d.Fresh ∧
    d.after [.writeFile "sh" (Content.ofBytes [1, 2, 3]) 3,
      .writeFile "Read me.txt" (Content.ofBytes [4, 5]) 2] = d₁ ∧
    d₁.HasFiles [⟨"Read me.txt", asciiBytes "README~1TXT".toList, [4, 5]⟩,
      ⟨"sh", asciiBytes "SH         ".toList, [1, 2, 3]⟩] 22 ∧
    (Call.writeFile "SH" (Content.ofBytes [6]) 1).Supplied ∧
    (Call.writeFile "SH" (Content.ofBytes [6]) 1).on d₁ = (.ok (), d₂) ∧
    d₂.HasFiles [⟨"SH", asciiBytes "SH         ".toList, [6]⟩,
      ⟨"Read me.txt", asciiBytes "README~1TXT".toList, [4, 5]⟩] 0 ∧
    (Call.writeFile "SH" (Content.ofBytes [6]) 1).Amends d₁ d₂ := by
  obtain ⟨d, hfresh⟩ := exists_fresh
  have hsupplied := supplied_ofBytes "SH" [6]
  obtain ⟨d₁, hdoes, -, hfiles⟩ := hfresh.hasFiles.exists_fill
    [("sh", [1, 2, 3]), ("Read me.txt", [4, 5])] 22 rfl (by decide)
  obtain ⟨d₂, hwrite, -, hfiles'⟩ := hfiles.exists_write "SH" [6] 0 rfl (by decide)
  obtain rfl := hdoes.after_eq
  have hamends := hfresh.amends_after.2 _ _ hsupplied (congrArg Prod.fst hwrite)
  rw [hwrite] at hamends
  exact ⟨d, _, d₂, hfresh, rfl, hfiles, hsupplied, hwrite, hfiles', hamends⟩

end Disk

end BootImage.Fat
