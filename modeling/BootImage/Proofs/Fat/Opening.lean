import BootImage.Proofs.Bytes.Splicing
import BootImage.Proofs.Checks
import BootImage.Proofs.Fat.Walking

/-!
# Opening any image

The numbers in a boot sector are those of whoever wrote it. Few of them are checked: an image whose
first sector has the two marks, sectors of a size that there is, clusters of a power of two sectors
and a table at all passes, however short it is and however many clusters it announces. Then the
first table is read, and with it what is left to check: that it has an entry for each cluster. So a
volume that is open never looks for the entry of a cluster in vain. But a table that is too short is
not reported as a fault of the format, which a boot sector with such numbers is.

## Main definitions

* `Geometry.tableHeld`: the bytes of the first table that an image has.
* `Geometry.HasTable`: the first table can be read, and has an entry for each cluster.

## Main results

* `Geometry.ends_ofBootSector`: a boot sector that is refused is refused as a fault of the format.
* `Volume.ends_ofContent`: what opening an image comes to, for every content.
-/

namespace BootImage.Fat

/-! ### Tables as they are stored -/

namespace ClusterTable

theorem length_lt_of_not_four {bs : Bytes}
    (h : ∀ a b c d rest, bs = a :: b :: c :: d :: rest → False) : bs.length < 4 := by
  match bs, h with
  | [], _ | [_], _ | [_, _], _ | [_, _, _], _ => simp
  | a :: b :: c :: d :: rest, h => exact (h a b c d rest rfl).elim

theorem rest_decodeFrom (entries : Array UInt32) (bs : Bytes) :
    (decodeFrom entries bs).rest.length < 4 := by
  fun_induction decodeFrom entries bs with
  | case1 entries a b c d rest ih => exact ih
  | case2 entries rest h => exact length_lt_of_not_four h

theorem size_decodeFrom (entries : Array UInt32) (bs : Bytes) :
    (decodeFrom entries bs).size = 4 * entries.size + bs.length := by
  fun_induction decodeFrom entries bs with
  | case1 entries a b c d rest ih =>
    rw [ih, Array.size_push]
    simp only [List.length_cons]
    omega
  | case2 entries rest _ => rfl

/-- Entries that are there already stay. -/
theorem getD_decodeFrom_of_lt (entries : Array UInt32) (bs : Bytes) {number : Nat}
    (h : number < entries.size) :
    (decodeFrom entries bs).entries.getD number 0 = entries.getD number 0 := by
  fun_induction decodeFrom entries bs with
  | case1 entries a b c d rest ih =>
    rw [ih (by rw [Array.size_push]; omega)]
    simp [Array.getD_eq_getD_getElem?, Array.getElem?_push_lt, h]
  | case2 entries rest _ => rfl

/-- Each four bytes are an entry behind those that are there already. -/
theorem getD_decodeFrom (entries : Array UInt32) (bs : Bytes) {number : Nat}
    (h : 4 * (number + 1) ≤ bs.length) :
    (decodeFrom entries bs).entries.getD (entries.size + number) 0 =
      UInt32.ofNat (bs.slice (4 * number) 4).toNat := by
  fun_induction decodeFrom entries bs generalizing number with
  | case1 entries a b c d rest ih =>
    cases number with
    | zero =>
      rw [getD_decodeFrom_of_lt _ _ (by rw [Array.size_push]; omega)]
      simp [Array.getD_eq_getD_getElem?, Bytes.slice]
    | succ number =>
      have hstep := @ih number (by simp only [List.length_cons] at h; omega)
      rw [Array.size_push, Nat.add_right_comm] at hstep
      exact hstep
  | case2 entries rest hrest =>
    have hlt := length_lt_of_not_four hrest
    omega

theorem size_ofBytes (bs : Bytes) : (ofBytes bs).size = bs.length := by
  rw [ofBytes, size_decodeFrom]
  simp

/-- A table has the entries that its bytes are enough for, and they say what stands there. -/
theorem link?_ofBytes (bs : Bytes) {number : Nat} (h : 4 * (number + 1) ≤ bs.length) :
    (ofBytes bs).link? number = some ((bs.slice (4 * number) 4).toNat % 0x10000000) := by
  have hsize := size_ofBytes bs
  have hrest : (ofBytes bs).rest.length < 4 := rest_decodeFrom #[] bs
  rw [size] at hsize
  have hentry := getD_decodeFrom #[] bs h
  rw [Array.size_empty, Nat.zero_add] at hentry
  have hlink : (ofBytes bs).link number = (bs.slice (4 * number) 4).toNat % 0x10000000 := by
    rw [link, ofBytes, hentry, UInt32.toNat_ofNat']
    omega
  rw [← hlink]
  exact if_pos (by omega)

end ClusterTable

namespace Geometry

variable (g : Geometry) (image : String) (size : Nat)

/-- The bytes of the first table that are in an image of the given size. -/
def tableHeld : Nat :=
  min (g.tableSectors * g.bytesPerSector) (size - g.tableOffset 0)

/-- The first table of an image of the given size can be read: it is not too long to be held, the
count of clusters is not negative, and there is an entry for each of them. -/
structure HasTable : Prop where
  held : g.tableSectors * g.bytesPerSector ≤ Bytes.maxHeld
  count : 0 ≤ g.clusterCount
  entries : 4 * (g.clusterCount + 2) ≤ g.tableHeld size

/-- Why an image without a table that can be read is not opened. -/
def tableFault : Error :=
  if Bytes.maxHeld < g.tableSectors * g.bytesPerSector then .beyondMemory else .tableTooShort

/-- A boot sector that is refused has some number or mark that no volume has, and is refused for
that. -/
theorem ends_ofBootSector (boot : Bytes) :
    Ends (fun e => e.kind = .format ∧
        e ∈ [Error.noSignature image, Error.notFat32 image, Error.corruptParameters image])
      (fun g => isPowerOfTwo g.sectorsPerCluster = true ∧ g.tableCount ≠ 0 ∧
        g.bytesPerSector ∈ [512, 1024, 2048, 4096])
      (ofBootSector boot image) := by
  refine .of_unless ⟨rfl, by simp⟩ fun _ => .of_unless ⟨rfl, by simp⟩ fun _ =>
    .of_unless ⟨rfl, by simp⟩ ?_
  rintro ⟨hsector, hpower, hcount⟩
  exact ⟨hpower, hcount, hsector⟩

end Geometry

/-! ### Volumes in any content -/

/-- The bytes of an entry, where the first table has it. -/
theorem Content.read_entry {content : Content} {place len number : Nat}
    (h : 4 * (number + 1) ≤ len) : (content.read place len).slice (4 * number) 4 =
      content.read (place + 4 * number) 4 := by
  rw [Content.read_eq_slice, Content.read_eq_slice, Bytes.slice, Bytes.slice, Bytes.slice,
    List.drop_take, List.take_take, List.drop_drop, Nat.min_eq_left (by omega)]

/-- An image is opened just if its boot sector is not refused and the first table is there, as far
as the boot sector has clusters. If it is opened, the count of clusters is not negative, and the
table in memory has the entry of each cluster, as it is in the image. If not, the failure is one of
the format just if it is the boot sector that is refused. -/
theorem Volume.ends_ofContent (image : String) (content : Content) (readOnly : Bool) :
    Ends
      (fun e =>
        (e.kind = .format ∧ Geometry.ofBootSector (content.read 0 512) image = .error e) ∨
          ∃ g, Geometry.ofBootSector (content.read 0 512) image = .ok g ∧
            ¬ g.HasTable content.size ∧ e = g.tableFault)
      (fun v =>
        Geometry.ofBootSector (content.read 0 512) image = .ok v.geometry ∧
          v.geometry.HasTable content.size ∧
          ∀ cluster : Nat, 2 ≤ cluster → (cluster : Int) ≤ v.geometry.clusterCount + 1 →
            v.table.link? cluster = some ((content.read (v.geometry.tableOffset 0 + 4 * cluster)
              4).toNat % 0x10000000))
      (Volume.ofContent image content readOnly) := by
  have hboot := Geometry.ends_ofBootSector image (content.read 0 512)
  rw [Volume.ofContent]
  cases hread : Geometry.ofBootSector (content.read 0 512) image with
  | error e =>
    rw [hread] at hboot
    exact .inl ⟨hboot.1, rfl⟩
  | ok g =>
    have hlength := Content.length_read content (g.tableOffset 0)
      (g.tableSectors * g.bytesPerSector)
    have hsize : (ClusterTable.ofBytes (content.read (g.tableOffset 0)
        (g.tableSectors * g.bytesPerSector))).size = g.tableHeld content.size :=
      (ClusterTable.size_ofBytes _).trans hlength
    simp only [Bind.bind, Except.bind]
    by_cases hheld : g.tableSectors * g.bytesPerSector > Bytes.maxHeld
    · rw [if_pos hheld]
      exact .inr ⟨g, rfl, fun h => absurd h.held (by omega), (if_pos hheld).symm⟩
    rw [if_neg hheld, hsize]
    by_cases hentries : 0 ≤ g.clusterCount ∧ 8 + 4 * g.clusterCount ≤ g.tableHeld content.size
    · rw [if_pos hentries]
      have htable : g.HasTable content.size := ⟨by omega, hentries.1, by omega⟩
      refine ⟨rfl, htable, fun cluster _ hlast => ?_⟩
      have hfit : 4 * (cluster + 1) ≤ g.tableHeld content.size := by
        have hlast : (cluster : Int) ≤ g.clusterCount + 1 := hlast
        omega
      rw [← Content.read_entry (Nat.le_trans hfit (Nat.min_le_left _ _))]
      exact ClusterTable.link?_ofBytes _ (hlength ▸ hfit)
    · rw [if_neg hentries]
      exact .inr ⟨g, rfl, fun h => hentries ⟨h.count, by have := h.entries; omega⟩,
        (if_neg hheld).symm⟩

/-- A small image is opened and its table has the entry of its one cluster. Cut off behind the boot
sector, it still passes as an image of the format, but has no table and is not opened. -/
theorem Volume.exists_ofContent_tableTooShort :
    (∃ v, Volume.ofContent "fs.img" (Content.ofBytes Disk.circle) true = .ok v ∧
      v.table.link? 2 = some 0x0FFFFFFF) ∧
    ∀ readOnly, Volume.ofContent "fs.img" (Content.ofBytes (Disk.circle.take 512)) readOnly =
      .error .tableTooShort := by
  constructor
  · have hends := Volume.ends_ofContent "fs.img" (Content.ofBytes Disk.circle) true
    rw [Disk.ofContent_circle] at hends
    obtain ⟨-, -, hlink⟩ := hends
    refine ⟨_, Disk.ofContent_circle, (hlink 2 (by decide) (by decide)).trans ?_⟩
    rw [Content.read_ofBytes]
    decide +kernel
  · intro readOnly
    have hends := Volume.ends_ofContent "fs.img" (Content.ofBytes (Disk.circle.take 512)) readOnly
    have hboot : Geometry.ofBootSector ((Content.ofBytes (Disk.circle.take 512)).read 0 512)
        "fs.img" = .ok Disk.circleGeometry := by
      rw [Content.read_ofBytes]
      decide +kernel
    have hsize : (Content.ofBytes (Disk.circle.take 512)).size = 512 := by
      rw [Content.size_ofBytes]
      decide +kernel
    have hshort : ¬ Disk.circleGeometry.HasTable 512 := fun h => absurd h.entries (by decide)
    rw [hboot, hsize] at hends
    cases hopen : Volume.ofContent "fs.img" (Content.ofBytes (Disk.circle.take 512)) readOnly with
    | ok v =>
      rw [hopen] at hends
      obtain ⟨hg, htable, -⟩ := hends
      exact absurd (Except.ok.inj hg ▸ htable) hshort
    | error e =>
      rw [hopen] at hends
      obtain ⟨-, h⟩ | ⟨g, hg, -, rfl⟩ := hends
      · cases h
      · cases hg
        rfl

end BootImage.Fat
