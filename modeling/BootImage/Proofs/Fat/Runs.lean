import BootImage.Proofs.Fat.Flushing

/-!
# Runs of calls

A volume is changed by calls that make directories and write files, and a flush writes its table
back. A call that fails may still have changed the disk, so a run goes on with whatever disk a call
leaves. What holds of every volume that was formatted and then changed by any calls follows from one
step: each call leaves a disk that holds a catalog.

## Main definitions

* `Call`, `Call.on`: a call, what it gives and the disk after it.
* `Disk.after`: the disk after a list of calls.
* `Disk.Does`: calls that succeed, one after the other.
* `Call.Supplied`: the source of a file has as many bytes as are asked of it.
* `Disk.SameReserved`: the reserved sectors are the same, but for FSInfo.

## Main results

* `Disk.Holds.on`: a disk holds a catalog after any call.
* `Disk.Fresh.after`: a volume that was formatted holds a catalog after any calls.
-/

namespace BootImage.Fat

/-- A call that changes a volume or writes its table back. -/
inductive Call
  | makeDirectory (path : String)
  | writeFile (path : String) (source : Content) (size : Int)
  | flush

namespace Call

/-- What a call does. -/
def edit : Call → Edit Unit
  | makeDirectory path => do
    let _ ← Edit.makeDirectory path
  | writeFile path source size => Edit.writeFile path source size
  | flush => do
    set (← Edit.query Disk.flush)

/-- What a call gives, and the disk after it. -/
def on (call : Call) (d : Disk) : Except Error Unit × Disk :=
  call.edit.on d

/-- A source has as many bytes as a file is to have. -/
def Supplied : Call → Prop
  | writeFile _ source size => ((source.read 0 size.toNat).length : Int) = size
  | _ => True

theorem on_makeDirectory {path : String} {d d' : Disk} {result : Except Error Nat}
    (h : (Edit.makeDirectory path).on d = (result, d')) :
    (makeDirectory path).on d = (result.map fun _ => (), d') := by
  rw [on, edit]
  cases result with
  | error e => rw [Edit.on_bind_error _ h, Except.map]
  | ok c =>
    rw [Edit.on_bind_ok _ h]
    rfl

theorem on_flush {d d' : Disk} (h : d.flush = .ok d') : flush.on d = (.ok (), d') := by
  rw [on, edit, Edit.on_bind_ok _ ((Edit.on_query _ d).trans (congrArg (·, d) h))]
  rfl

theorem supplied_iff {path : String} {source : Content} {size : Int} :
    (writeFile path source size).Supplied ↔ 0 ≤ size ∧ size.toNat ≤ source.size := by
  rw [Supplied, Content.length_read]
  omega

end Call

/-- The disk after calls, one after the other, whether or not they fail. -/
def Disk.after (d : Disk) (calls : List Call) : Disk :=
  calls.foldl (fun d call => (call.on d).2) d

/-- Calls that all succeed, one after the other. -/
def Disk.Does : Disk → List Call → Disk → Prop
  | d, [], d' => d' = d
  | d, call :: calls, d' => ∃ d₁, call.on d = (.ok (), d₁) ∧ d₁.Does calls d'

/-- A volume that can be changed. -/
def Disk.Writable (d : Disk) : Prop :=
  d.volume.closed = false ∧ d.volume.readOnly = false

/-- The same image in two states: it is as long as it was, and of its reserved sectors, among them
the boot sector and the copy of it, only the two of FSInfo may differ. -/
structure Disk.SameReserved (d d' : Disk) : Prop where
  geometry : d'.volume.geometry = d.volume.geometry
  size : d'.content.size = d.content.size
  get : ∀ i < d.volume.geometry.reservedSectors * d.volume.geometry.bytesPerSector,
    i / d.volume.geometry.bytesPerSector ∉ [1, 7] → d'.content.get i = d.content.get i

namespace Disk

variable {d d' : Disk} {G : Catalog} {K : Owner → List Nat} {loose : List Nat}

/-! ### Calls that succeed -/

theorem does_append {calls more : List Call} :
    d.Does (calls ++ more) d' ↔ ∃ d₁, d.Does calls d₁ ∧ d₁.Does more d' := by
  induction calls generalizing d with
  | nil => simp [Does]
  | cons call calls ih =>
    simp only [List.cons_append, Does, ih]
    constructor
    · rintro ⟨d₁, hcall, d₂, hcalls, hmore⟩
      exact ⟨d₂, ⟨d₁, hcall, hcalls⟩, hmore⟩
    · rintro ⟨d₂, ⟨d₁, hcall, hcalls⟩, hmore⟩
      exact ⟨d₁, hcall, d₂, hcalls, hmore⟩

theorem does_singleton {call : Call} : d.Does [call] d' ↔ call.on d = (.ok (), d') := by
  simp only [Does]
  constructor
  · rintro ⟨d₁, hcall, rfl⟩
    exact hcall
  · exact fun hcall => ⟨d', hcall, rfl⟩

theorem Does.after_eq {calls : List Call} (h : d.Does calls d') : d.after calls = d' := by
  induction calls generalizing d with
  | nil => exact h.symm
  | cons call calls ih =>
    obtain ⟨d₁, hcall, hcalls⟩ := h
    rw [after, List.foldl_cons, hcall]
    exact ih hcalls

/-! ### What calls keep -/

theorem Alike.writable (h : d.Alike d') (hw : d.Writable) : d'.Writable :=
  ⟨h.closed.trans hw.1, h.readOnly.trans hw.2⟩

/-- Closing a volume that can be changed is a flush. -/
theorem Writable.close_eq (hw : d.Writable) :
    d.close = ⟨{ d.volume with closed := true }, flushed d.volume d.content⟩ := by
  simp only [close, hw.1, hw.2]
  rfl

namespace SameReserved

theorem refl (d : Disk) : d.SameReserved d := ⟨rfl, rfl, fun _ _ _ => rfl⟩

theorem trans {d'' : Disk} (h : d.SameReserved d') (h' : d'.SameReserved d'') :
    d.SameReserved d'' := by
  refine ⟨h'.geometry.trans h.geometry, h'.size.trans h.size, fun i hi hsector => ?_⟩
  rw [h'.get i (h.geometry.symm ▸ hi) (h.geometry.symm ▸ hsector), h.get i hi hsector]

end SameReserved

/-- The reserved sectors lie before the clusters. -/
theorem Alike.sameReserved (h : d.Alike d') : d.SameReserved d' := by
  refine ⟨h.geometry, h.below.1, fun i hi _ => h.below.2 i ?_⟩
  rw [dataPlace_eq]
  omega

theorem Sound.sameReserved_flushed (h : d.Sound) :
    d.SameReserved ⟨d.volume, flushed d.volume d.content⟩ :=
  ⟨rfl, h.flushed_facts.1, h.flushed_facts.2.1⟩

/-! ### One call -/

/-- What storing a file leaves is a disk that holds a catalog. -/
theorem Stores.holds {dir : Nat} {f : Folder} {name path : String} {source : Content} {size : Int}
    {result : Except Error Unit} {d' : Disk}
    (h : d.Stores G loose dir f name path source size result d') (hholds : d.Holds G K loose) :
    d.Alike d' ∧ ∃ G' K' loose', d'.Holds G' K' loose' ∧
      ((Call.writeFile path source size).Supplied → loose' = loose) := by
  cases h with
  | negative hsize => exact ⟨.refl d, G, K, loose, hholds, fun _ => rfl⟩
  | @short _ K' cs hsize hshort halike hless =>
    refine ⟨halike, G, K', cs ++ loose, hshort, fun hsupplied => ?_⟩
    rw [Call.supplied_iff] at hsupplied
    omega
  | stored hpos hsize hspelling hadds hstored halike =>
    exact ⟨halike, _, _, loose, hstored, fun _ => rfl⟩

/-- A file whose source has the bytes that are asked of it is stored. -/
theorem Stores.of_supplied {dir : Nat} {f : Folder} {name path : String} {source : Content}
    {size : Int} {result : Except Error Unit}
    (h : d.Stores G loose dir f name path source size result d')
    (hsupplied : (Call.writeFile path source size).Supplied) : result = .ok () ∧ d.Alike d' ∧
      ∃ K' s n c f', spellingOf name f.taken = .ok s ∧
        f.Adds n ⟨s, .file c (source.read 0 size.toNat)⟩ f' ∧
        d'.Holds (G.withFolder dir (d.upFrom dir) f' (.file c (source.read 0 size.toNat))) K'
          loose := by
  rw [Call.supplied_iff] at hsupplied
  cases h with
  | negative hsize => omega
  | short hsize => omega
  | stored _ _ hs hadds hholds halike => exact ⟨rfl, halike, _, _, _, _, _, hs, hadds, hholds⟩

/-- A disk holds a catalog after any call. Clusters that belong to nobody can only be left by the
writing of a file whose source is too short. -/
theorem Holds.on (h : d.Holds G K loose) (hw : d.Writable) (call : Call) :
    (call.on d).2.Writable ∧ d.SameReserved (call.on d).2 ∧
      ∃ G' K' loose', (call.on d).2.Holds G' K' loose' ∧ (call.Supplied → loose' = loose) := by
  cases call with
  | makeDirectory path =>
    obtain ⟨result, d', G', K', found, hrun, -, -, hholds, halike⟩ :=
      Edit.makeDirectory_cases h hw.1 hw.2 path
    rw [Call.on_makeDirectory hrun]
    exact ⟨halike.writable hw, halike.sameReserved, G', K', loose, hholds, fun _ => rfl⟩
  | writeFile path source size =>
    obtain ⟨result, d', hrun, hwrites⟩ := Edit.writeFile_on h hw.1 hw.2 path source size
    have hd : ((Call.writeFile path source size).on d).2 = d' := by
      rw [Call.on, Call.edit, hrun]
    rw [hd]
    cases hwrites with
    | refused => exact ⟨hw, .refl d, G, K, loose, h, fun _ => rfl⟩
    | fresh _ _ _ _ hstores =>
      obtain ⟨halike, hholds⟩ := hstores.holds h
      exact ⟨halike.writable hw, halike.sameReserved, hholds⟩
    | replaced _ _ _ _ _ _ hholds₁ halike₁ hstores =>
      obtain ⟨halike, hholds⟩ := hstores.holds hholds₁
      have halike' := halike₁.trans halike
      exact ⟨halike'.writable hw, halike'.sameReserved, hholds⟩
  | flush =>
    obtain ⟨hflush, hholds⟩ := h.flush hw.1 hw.2
    rw [Call.on_flush hflush]
    exact ⟨⟨hw.1, hw.2⟩, h.sound.sameReserved_flushed, G, K, loose, hholds, fun _ => rfl⟩

/-! ### Many calls -/

/-- A disk holds a catalog after any calls, and nothing is lost if every source has its bytes. -/
theorem Holds.after (h : d.Holds G K loose) (hw : d.Writable) (calls : List Call) :
    (d.after calls).Writable ∧ d.SameReserved (d.after calls) ∧
      ∃ G' K' loose', (d.after calls).Holds G' K' loose' ∧
        ((∀ call ∈ calls, call.Supplied) → loose' = loose) := by
  induction calls generalizing d G K loose with
  | nil => exact ⟨hw, .refl d, G, K, loose, h, fun _ => rfl⟩
  | cons call calls ih =>
    obtain ⟨hw₁, hsame₁, G₁, K₁, loose₁, h₁, hloose₁⟩ := h.on hw call
    obtain ⟨hw', hsame', G', K', loose', h', hloose'⟩ := ih h₁ hw₁
    refine ⟨hw', hsame₁.trans hsame', G', K', loose', h', fun hsupplied => ?_⟩
    rw [List.forall_mem_cons] at hsupplied
    exact (hloose' hsupplied.2).trans (hloose₁ hsupplied.1)

/-- A volume that was formatted holds a catalog after any calls. -/
theorem Fresh.after (h : d.Fresh) (calls : List Call) :
    (d.after calls).Writable ∧ ∃ G K loose, (d.after calls).Holds G K loose ∧
      ((∀ call ∈ calls, call.Supplied) → loose = []) := by
  obtain ⟨hopen, hwritable, hholds⟩ := h.holds
  obtain ⟨hw, -, hafter⟩ := hholds.after ⟨hopen, hwritable⟩ calls
  exact ⟨hw, hafter⟩

/-- The reserved sectors of a volume that was formatted stay what they are, but for FSInfo. -/
theorem Fresh.sameReserved_after (h : d.Fresh) (calls : List Call) :
    d.SameReserved (d.after calls) := by
  obtain ⟨hopen, hwritable, hholds⟩ := h.holds
  exact (hholds.after ⟨hopen, hwritable⟩ calls).2.1

/-- A small file is not refused in the root directory of a new volume. -/
theorem Fresh.not_refuses (h : d.Fresh) {path name : String} (hpath : splitPath path = [name])
    {s : Spelling} (hs : spellingOf name (fun _ => false) = .ok s) {size : Int} (hsize : 0 ≤ size)
    (hsmall : size + (s.longPart.length + 1 : Nat) ≤ (Error.minClusters - 1 : Nat)) :
    ¬ d.Refuses d.newCatalog path size := by
  have hfree := h.free_ge
  obtain ⟨-, -, hholds⟩ := h.holds
  have hempty : ∀ {dir f}, d.newCatalog dir = some f → f = ⟨none, []⟩ := fun hf =>
    (newCatalog_eq_some.1 hf).2
  have hlast : ∀ {name'}, (splitPath path).getLast? = some name' → name' = name := by
    intro name' hname
    rw [hpath] at hname
    exact (Option.some.inj hname).symm
  intro hrefuses
  cases hrefuses with
  | noName hnil =>
    rw [hpath] at hnil
    cases hnil
  | tooLarge hlarge =>
    rw [Edit.maxFileSize] at hlarge
    rw [Error.minClusters] at hsmall
    omega
  | tooSmall hleast =>
    have hprod := Int.mul_pos Edit.maxQuotient_pos (Int.natCast_pos.2 hholds.sound.pos)
    omega
  | noDirectory hnone =>
    rw [hpath] at hnone
    cases hnone
  | isDirectory _ _ hf hfind =>
    rw [hempty hf] at hfind
    cases hfind
  | noRoom hname _ hf _ hroom =>
    rw [hlast hname, hempty hf] at hroom
    exact hroom (hasRoom_of_le hs hholds.sound.pos hsize (by omega))
  | noRoomInPlace _ _ hf hfind =>
    rw [hempty hf] at hfind
    cases hfind

/-- A small file that is written to the root directory of a new volume is the only record there. -/
theorem Fresh.writeFile_on (h : d.Fresh) {path name : String} (hpath : splitPath path = [name])
    {s : Spelling} (hs : spellingOf name (fun _ => false) = .ok s) {source : Content} {size : Int}
    (hsupplied : (Call.writeFile path source size).Supplied)
    (hsmall : size + (s.longPart.length + 1 : Nat) ≤ (Error.minClusters - 1 : Nat)) :
    ∃ d' n c f K', (Call.writeFile path source size).on d = (.ok (), d') ∧ d.Alike d' ∧
      Folder.Adds ⟨none, []⟩ n ⟨s, .file c (source.read 0 size.toNat)⟩ f ∧
      d'.Holds (d.newCatalog.withFolder d.volume.geometry.rootCluster
        (d.upFrom d.volume.geometry.rootCluster) f (.file c (source.read 0 size.toNat))) K' [] := by
  have hnot := h.not_refuses hpath hs (Call.supplied_iff.1 hsupplied).1 hsmall
  obtain ⟨hopen, hwritable, hholds⟩ := h.holds
  obtain ⟨result, d', hrun, hwrites⟩ := Edit.writeFile_on hholds hopen hwritable path source size
  have hon : (Call.writeFile path source size).on d = (result, d') := hrun
  cases hwrites with
  | refused _ hwhy => exact absurd hwhy hnot
  | fresh hname _ hf _ hstores =>
    obtain ⟨rfl, rfl⟩ := newCatalog_eq_some.1 hf
    obtain ⟨rfl, halike, K', s', n, c, f, hs', hadds, hholds'⟩ := hstores.of_supplied hsupplied
    rw [hpath] at hname
    cases hname
    cases hs'.symm.trans hs
    exact ⟨d', n, c, f, K', hon, halike, hadds, hholds'⟩
  | replaced _ _ hf hfind =>
    obtain ⟨-, rfl⟩ := newCatalog_eq_some.1 hf
    cases hfind

/-- A small file is written to the root directory of a new volume. -/
theorem Fresh.writeFile_ok (h : d.Fresh) {path name : String} (hpath : splitPath path = [name])
    {s : Spelling} (hs : spellingOf name (fun _ => false) = .ok s) {source : Content} {size : Int}
    (hsupplied : (Call.writeFile path source size).Supplied)
    (hsmall : size + (s.longPart.length + 1 : Nat) ≤ (Error.minClusters - 1 : Nat)) :
    ((Call.writeFile path source size).on d).1 = .ok () := by
  obtain ⟨d', _, _, _, _, hon, -⟩ := h.writeFile_on hpath hs hsupplied hsmall
  rw [hon]

end Disk

end BootImage.Fat
