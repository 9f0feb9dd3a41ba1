import BootImage.Proofs.Fat.Catalog
import BootImage.Proofs.Fat.Sizing

/-!
# New volumes

Formatting writes the boot sector, the tables and an empty root directory, and nothing else, so an
image may keep old bytes in every other cluster. Opening it finds the geometry that was written, a
table with one cluster in use, and a root directory of blank slots.

## Main definitions

* `Disk.Fresh`: a volume that was formatted and opened.

## Main results

* `Geometry.ofBootSector_bootSector`: the boot sector tells its geometry.
* `formattedWith_eq`: the pieces of a new volume at their places.
* `Disk.Sound.holds_new`: a disk on which only the root directory has a cluster holds nothing.
* `Disk.Fresh.holds`: a new volume holds an empty root directory.
* `exists_fresh_of_formatImage`: every image that can be formatted can be opened then.
-/

namespace BootImage

namespace Bytes

/-! ### Fields of a sector -/

theorem slice_eq_of_getD {a b : Bytes} {start len : Nat} (hlen : b.length = len)
    (hfit : start + len ≤ a.length) (h : ∀ i < len, a.getD (start + i) 0 = b.getD i 0) :
    a.slice start len = b := by
  have hlen' : (a.slice start len).length = len := by
    rw [slice, List.length_take, List.length_drop]
    omega
  refine ext_getD (by omega) fun i hi => ?_
  rw [hlen'] at hi
  rw [← h i hi, slice, List.getD_eq_getElem?_getD, List.getElem?_take_of_lt hi, List.getElem?_drop,
    List.getD_eq_getElem?_getD]

/-- Fields that are written in the order of their places are read back. -/
theorem slice_foldl_overlay (fields : List (Nat × Bytes)) (base : Bytes)
    (hsorted : fields.Pairwise fun x y => x.1 + x.2.length ≤ y.1)
    (hfit : ∀ x ∈ fields, x.1 + x.2.length ≤ base.length) :
    (fields.foldl (fun bs x => bs.overlay x.1 x.2) base).length = base.length ∧
      ∀ x ∈ fields, (fields.foldl (fun bs x => bs.overlay x.1 x.2) base).slice x.1 x.2.length =
        x.2 := by
  have hlen : ∀ (fields : List (Nat × Bytes)) (base : Bytes),
      (∀ x ∈ fields, x.1 + x.2.length ≤ base.length) →
      (fields.foldl (fun bs x => bs.overlay x.1 x.2) base).length = base.length := by
    intro fields
    induction fields with
    | nil => exact fun _ _ => rfl
    | cons x fields ih =>
      intro base hfit
      rw [List.forall_mem_cons] at hfit
      have hx := length_overlay_of_le hfit.1
      rw [List.foldl_cons, ih _ fun y hy => by rw [hx]; exact hfit.2 y hy, hx]
  -- A field written first stays when the later ones lie behind it.
  have hbefore : ∀ (fields : List (Nat × Bytes)) (base : Bytes) (i : Nat),
      (∀ x ∈ fields, i < x.1) →
      (fields.foldl (fun bs x => bs.overlay x.1 x.2) base).getD i 0 = base.getD i 0 := by
    intro fields
    induction fields with
    | nil => exact fun _ _ _ => rfl
    | cons x fields ih =>
      intro base i hi
      rw [List.forall_mem_cons] at hi
      rw [List.foldl_cons, ih _ i hi.2, getD_overlay, if_neg (by omega)]
  refine ⟨hlen fields base hfit, ?_⟩
  induction fields generalizing base with
  | nil => simp
  | cons x fields ih =>
    rw [List.forall_mem_cons] at hfit
    rw [List.pairwise_cons] at hsorted
    have hx := length_overlay_of_le hfit.1
    have hfit' : ∀ y ∈ fields, y.1 + y.2.length ≤ (base.overlay x.1 x.2).length := fun y hy => by
      rw [hx]
      exact hfit.2 y hy
    refine List.forall_mem_cons.2 ⟨?_, ih _ hsorted.2 hfit'⟩
    refine slice_eq_of_getD rfl ?_ fun i hi => ?_
    · rw [List.foldl_cons, hlen _ _ hfit', hx]
      exact hfit.1
    · rw [List.foldl_cons, hbefore fields _ _ fun y hy => by have := hsorted.1 y hy; omega,
        getD_overlay, if_pos (by omega), Nat.add_sub_cancel_left]

end Bytes

namespace Fat

theorem sorted_bootFields (g : Geometry) {label : Bytes} (hlabel : label.length = 11) (id : Int) :
    (bootFields g label id).Pairwise fun x y => x.1 + x.2.length ≤ y.1 := by
  have : IsTrans (Nat × Bytes) fun x y => x.1 + x.2.length ≤ y.1 :=
    ⟨fun x y z hxy hyz => by omega⟩
  rw [← List.isChain_iff_pairwise]
  simp [bootFields, hlabel, asciiBytes]

/-- The fields of a boot sector are read back. -/
theorem slice_bootSector {g : Geometry} {label : Bytes} (hlabel : label.length = 11) (id : Int)
    (hsector : 512 ≤ g.bytesPerSector) : (bootSector g label id).length = g.bytesPerSector ∧
      ∀ x ∈ bootFields g label id, (bootSector g label id).slice x.1 x.2.length = x.2 := by
  have hfit : ∀ x ∈ bootFields g label id,
      x.1 + x.2.length ≤ (Bytes.zeros g.bytesPerSector).length := by
    simp [bootFields, hlabel, asciiBytes]
    omega
  obtain ⟨hlen, hread⟩ := Bytes.slice_foldl_overlay _ _ (sorted_bootFields g hlabel id) hfit
  exact ⟨hlen.trans (Bytes.length_zeros _), hread⟩

theorem isPowerOfTwo_of_mem : ∀ n ∈ [1, 2, 4, 8, 16, 32, 64, 128], isPowerOfTwo n = true := by
  decide

/-- The boot sector of a volume, read back as a whole. -/
theorem Geometry.ofBootSector_bootSector {g : Geometry} {label : Bytes} (hlabel : label.length = 11)
    (id : Int) (image : String) (hsector : g.bytesPerSector ∈ [512, 1024, 2048, 4096])
    (hcluster : g.sectorsPerCluster ∈ [1, 2, 4, 8, 16, 32, 64, 128])
    (hreserved : g.reservedSectors < 0x10000) (htables : g.tableCount < 0x100)
    (hpos : g.tableCount ≠ 0) (htotal : g.totalSectors < 0x100000000)
    (htable : g.tableSectors < 0x100000000) (hroot : g.rootCluster < 0x100000000) :
    Geometry.ofBootSector (bootSector g label id) image = .ok g := by
  obtain ⟨hbps, hbps'⟩ : 512 ≤ g.bytesPerSector ∧ g.bytesPerSector < 0x10000 := by
    simp only [List.mem_cons, List.not_mem_nil, or_false] at hsector
    omega
  obtain ⟨hlen, hread⟩ := slice_bootSector hlabel id hbps
  have hnumber : ∀ start width n, (start, Bytes.ofNat width n) ∈ bootFields g label id →
      n < Nat.pow 256 width → numberAt (bootSector g label id) start width = n := by
    intro start width n hmem hlt
    have := hread _ hmem
    simp only [Bytes.length_ofNat] at this
    rw [numberAt, this, Bytes.toNat_ofNat, Nat.mod_eq_of_lt hlt]
  have hspc : g.sectorsPerCluster < 256 := by
    simp only [List.mem_cons, List.not_mem_nil, or_false] at hcluster
    omega
  have hsignature : (bootSector g label id).slice 510 2 = [0x55, 0xAA] :=
    hread (510, [0x55, 0xAA]) (by simp [bootFields])
  have hkind : (bootSector g label id).slice 82 8 = asciiBytes "FAT32   ".toList :=
    hread (82, asciiBytes "FAT32   ".toList) (by simp [bootFields])
  have h11 := hnumber 11 2 g.bytesPerSector (by simp [bootFields]) hbps'
  have h13 := hnumber 13 1 g.sectorsPerCluster (by simp [bootFields]) hspc
  have h14 := hnumber 14 2 g.reservedSectors (by simp [bootFields]) hreserved
  have h16 := hnumber 16 1 g.tableCount (by simp [bootFields]) htables
  have h32 := hnumber 32 4 g.totalSectors (by simp [bootFields]) htotal
  have h36 := hnumber 36 4 g.tableSectors (by simp [bootFields]) htable
  have h44 := hnumber 44 4 g.rootCluster (by simp [bootFields]) hroot
  have hvalid : g.bytesPerSector ∈ [512, 1024, 2048, 4096] ∧
      isPowerOfTwo g.sectorsPerCluster = true ∧ g.tableCount ≠ 0 :=
    ⟨hsector, isPowerOfTwo_of_mem _ hcluster, hpos⟩
  rw [Geometry.ofBootSector]
  simp only [h11, h13, h14, h16, h32, h36, h44]
  rw [if_pos ⟨hlen.ge.trans' hbps, hsignature⟩, if_pos hkind, if_pos hvalid]
  rfl

/-! ### The division of a new volume -/

/-- How a new volume is divided: the fields fit the boot sector, the tables have an entry for each
cluster, and the clusters lie inside the image. -/
structure Geometry.New (g : Geometry) (size : Nat) : Prop where
  sector : g.bytesPerSector = 512
  cluster : g.sectorsPerCluster ∈ [1, 2, 4, 8, 16, 32, 64, 128]
  reserved : g.reservedSectors = 32
  tables : g.tableCount = 2
  root : g.rootCluster = 2
  total : g.totalSectors * 512 = size
  total_lt : g.totalSectors < 0x100000000
  table_pos : 0 < g.tableSectors
  table_le : g.tableSectors ≤ 0x2000001
  clusters : 65525 ≤ g.clusterCount ∧ g.clusterCount ≤ 0x0FFFFFF5
  entries : (g.clusterCount.toNat + 2) * 4 ≤ g.tableSectors * 512
  room : g.dataStart + g.clusterCount.toNat * g.sectorsPerCluster ≤ g.totalSectors

theorem Geometry.new_of_ofSize {size : Nat} {spc : Int} {g : Geometry}
    (h : Geometry.ofSize size spc 512 = .ok g) : g.New size := by
  have h := Geometry.sized_of_ofSize (by decide) h
  exact
    { sector := h.sector, cluster := h.cluster, reserved := h.reserved, tables := h.tables,
      root := h.root, total := by exact_mod_cast h.total, total_lt := h.total_lt,
      table_pos := h.table_pos, table_le := h.table_le, clusters := h.clusters,
      entries := h.entries,
      room := by rw [Division.dataStart, h.tables]; exact h.room }

/-! ### The bytes of a new volume -/

theorem slice_fsInfo (free next : Nat) {size : Nat} (h : 512 ≤ size) :
    (fsInfo free next size).length = size ∧
      (fsInfo free next size).slice 488 4 = Bytes.ofNat 4 free ∧
      (fsInfo free next size).slice 492 4 = Bytes.ofNat 4 next := by
  obtain ⟨hlen, hread⟩ := Bytes.slice_foldl_overlay
    [(0, Bytes.ofNat 4 0x41615252), (484, Bytes.ofNat 4 0x61417272),
      (488, Bytes.ofNat 4 free), (492, Bytes.ofNat 4 next), (508, Bytes.ofNat 4 0xAA550000)]
    (Bytes.zeros size) (by simp) (by simp; omega)
  exact ⟨hlen.trans (Bytes.length_zeros size), hread (488, Bytes.ofNat 4 free) (by simp),
    hread (492, Bytes.ofNat 4 next) (by simp)⟩

theorem length_fsInfo (free next : Nat) {size : Nat} (h : 512 ≤ size) :
    (fsInfo free next size).length = size :=
  (slice_fsInfo free next h).1

/-- The numbers that FSInfo keeps are read back. -/
theorem numberAt_fsInfo {free next size : Nat} (h : 512 ≤ size) (hfree : free < 0x100000000)
    (hnext : next < 0x100000000) : numberAt (fsInfo free next size) 488 4 = free ∧
      numberAt (fsInfo free next size) 492 4 = next := by
  obtain ⟨-, hone, htwo⟩ := slice_fsInfo free next h
  rw [numberAt, numberAt, hone, htwo, Bytes.toNat_ofNat, Bytes.toNat_ofNat]
  exact ⟨Nat.mod_eq_of_lt hfree, Nat.mod_eq_of_lt hnext⟩

section New

variable {g : Geometry} {label : Bytes} {id : Int} {content : Content}

theorem Geometry.New.offsets (h : g.New content.size) : g.tableOffset 0 = 16384 ∧
    g.tableOffset 1 = (32 + g.tableSectors) * 512 ∧ g.dataStart = 32 + 2 * g.tableSectors ∧
    (g.clusterOffset g.rootCluster).toNat = (32 + 2 * g.tableSectors) * 512 ∧
    g.clusterSize = g.sectorsPerCluster * 512 := by
  have hdata : g.dataStart = 32 + 2 * g.tableSectors := by
    rw [Division.dataStart, h.reserved, h.tables]
  have hroot := ClusterTable.toNat_clusterOffset g (x := g.rootCluster) (by rw [h.root])
  refine ⟨?_, ?_, hdata, ?_, ?_⟩
  · rw [Geometry.tableOffset, h.reserved, h.sector, Nat.zero_mul]
  · rw [Geometry.tableOffset, h.reserved, h.sector, Nat.one_mul]
  · rw [hroot, h.root, Nat.sub_self, Nat.zero_mul, hdata, h.sector, Nat.add_zero]
  · rw [Geometry.clusterSize, h.sector]

/-- The root directory is inside the image. -/
theorem Geometry.New.root_le (h : g.New content.size) :
    (32 + 2 * g.tableSectors) * 512 + g.sectorsPerCluster * 512 ≤ content.size := by
  have hroom := h.room
  have htotal := h.total
  have hcount : 1 ≤ g.clusterCount.toNat := by
    have := h.clusters.1
    omega
  have := Nat.mul_le_mul_right g.sectorsPerCluster hcount
  rw [h.offsets.2.2.1] at hroom
  omega

theorem length_newTableStart : newTableStart.length = 12 := by decide

theorem Geometry.New.length_bootSector (h : g.New content.size) (hlabel : label.length = 11)
    (id : Int) : (bootSector g label id).length = 512 :=
  (slice_bootSector hlabel id h.sector.ge).1.trans h.sector

/-- The pieces of a new volume at their places: the boot sector and FSInfo, each of them twice, both
tables, and the root directory. -/
theorem formattedWith_eq (id : Int) (h : g.New content.size) : formattedWith g label id content =
    (content.clear 0 16384
      |>.write 0 (bootSector g label id)
      |>.write 512 (fsInfo (g.clusterCount.toNat - 1) (g.rootCluster + 1) 512)
      |>.write 3072 (bootSector g label id)
      |>.write 3584 (fsInfo (g.clusterCount.toNat - 1) (g.rootCluster + 1) 512)
      |>.clear 16384 (g.tableSectors * 512)
      |>.write 16384 newTableStart
      |>.clear ((32 + g.tableSectors) * 512) (g.tableSectors * 512)
      |>.write ((32 + g.tableSectors) * 512) newTableStart
      |>.clear ((32 + 2 * g.tableSectors) * 512) (g.sectorsPerCluster * 512)) := by
  obtain ⟨h0, h1, -, hroot, hcluster⟩ := h.offsets
  have hrange : List.range g.tableCount = [0, 1] := by
    rw [h.tables]
    rfl
  simp only [formattedWith, hrange, List.foldl_cons, List.foldl_nil, h0, h1, hroot, hcluster,
    h.sector, h.reserved]

/-- Formatting leaves an image as long as it is. -/
theorem size_formattedWith (id : Int) (h : g.New content.size) (hlabel : label.length = 11) :
    (formattedWith g label id content).size = content.size := by
  have hfit := h.root_le
  have hpos := h.table_pos
  obtain ⟨hbig, hfirst, hsecond, hstart⟩ : 17408 ≤ content.size ∧
      16384 + g.tableSectors * 512 ≤ content.size ∧
      (32 + g.tableSectors) * 512 + g.tableSectors * 512 ≤ content.size ∧
      (32 + g.tableSectors) * 512 + 12 ≤ content.size := by omega
  have hclear : ∀ (c : Content) start len, c.size = content.size →
      start + len ≤ content.size → (c.clear start len).size = content.size :=
    fun c start len hc hle => (c.size_clear_of_le (hc ▸ hle)).trans hc
  have hwrite : ∀ (c : Content) start (bs : Bytes), c.size = content.size →
      start + bs.length ≤ content.size → (c.write start bs).size = content.size :=
    fun c start bs hc hle => (c.size_write_of_le (hc ▸ hle)).trans hc
  rw [formattedWith_eq id h]
  refine hclear _ _ _ (hwrite _ _ _ (hclear _ _ _ (hwrite _ _ _ (hclear _ _ _ (hwrite _ _ _
    (hwrite _ _ _ (hwrite _ _ _ (hwrite _ _ _ (hclear _ _ _ rfl ?_) ?_) ?_) ?_) ?_) ?_) ?_) ?_)
    ?_) ?_
  all_goals try simp only [h.length_bootSector hlabel, length_fsInfo _ _ (Nat.le_refl 512),
    length_newTableStart, Nat.reduceAdd]
  · exact le_trans (by decide) hbig
  · exact le_trans (by decide) hbig
  · exact le_trans (by decide) hbig
  · exact le_trans (by decide) hbig
  · exact le_trans (by decide) hbig
  · exact hfirst
  · exact le_trans (by decide) hbig
  · exact hsecond
  · exact hstart
  · exact hfit

/-- What stands in the boot sector, in the first table and in the root directory. -/
theorem get_formattedWith (id : Int) (h : g.New content.size) (hlabel : label.length = 11) :
    (∀ i < 512, (formattedWith g label id content).get i = (bootSector g label id).getD i 0) ∧
      (∀ i < g.tableSectors * 512,
        (formattedWith g label id content).get (16384 + i) = newTableStart.getD i 0) ∧
      ∀ i < g.sectorsPerCluster * 512,
        (formattedWith g label id content).get ((32 + 2 * g.tableSectors) * 512 + i) = 0 := by
  have hpos := h.table_pos
  have hstart := length_newTableStart
  simp only [formattedWith_eq id h, Content.get_clear, Content.get_write,
    h.length_bootSector hlabel, length_fsInfo _ _ (Nat.le_refl 512), hstart]
  refine ⟨fun i hi => ?_, fun i hi => ?_, fun i hi => ?_⟩
  · rw [if_neg (by omega), if_neg (by omega), if_neg (by omega), if_neg (by omega),
      if_neg (by omega), if_neg (by omega), if_neg (by omega), if_neg (by omega),
      if_pos (by omega), Nat.sub_zero]
  · rw [if_neg (by omega), if_neg (by omega), if_neg (by omega)]
    by_cases hi12 : i < 12
    · rw [if_pos (by omega), show 16384 + i - 16384 = i by omega]
    · rw [if_neg (by omega), if_pos (by omega), Bytes.getD_of_length_le (by omega)]
  · rw [if_pos (by omega)]

/-! ### The table of a new volume -/

/-- The table of a new volume: the root directory has one cluster, all others are free. -/
def newTable (g : Geometry) : ClusterTable :=
  ⟨(([0x0FFFFFF8, 0x0FFFFFFF, 0x0FFFFFFF] : List UInt32) ++
    List.replicate (g.tableSectors * 128 - 3) 0).toArray, []⟩

theorem decodeFrom_flatMap (entries : Array UInt32) (es : List UInt32) :
    ClusterTable.decodeFrom entries (es.flatMap fun e => Bytes.ofNat 4 e.toNat) =
      ⟨entries ++ es.toArray, []⟩ := by
  induction es generalizing entries with
  | nil => simp [ClusterTable.decodeFrom]
  | cons e es ih =>
    have hread : UInt32.ofNat (Bytes.toNat (Bytes.ofNat 4 e.toNat)) = e := by
      have hlt : e.toNat < Nat.pow 256 4 := e.toNat_lt
      rw [Bytes.toNat_ofNat, Nat.mod_eq_of_lt hlt, UInt32.ofNat_toNat]
    have hstep : ClusterTable.decodeFrom entries
        (Bytes.ofNat 4 e.toNat ++ es.flatMap fun e => Bytes.ofNat 4 e.toNat) =
        ClusterTable.decodeFrom (entries.push (UInt32.ofNat (Bytes.toNat (Bytes.ofNat 4 e.toNat))))
          (es.flatMap fun e => Bytes.ofNat 4 e.toNat) := rfl
    rw [List.flatMap_cons, hstep, hread, ih]
    simp

/-- The table that a new volume is opened with. -/
theorem ofBytes_newTable (h : g.New content.size) (hlabel : label.length = 11) :
    ClusterTable.ofBytes ((formattedWith g label id content).read (g.tableOffset 0)
        (g.tableSectors * g.bytesPerSector)) = newTable g := by
  have hsize := size_formattedWith id h hlabel
  obtain ⟨-, htable, -⟩ := get_formattedWith id h hlabel
  have hfit := h.root_le
  have hpos := h.table_pos
  have hbytes : (formattedWith g label id content).read (g.tableOffset 0)
      (g.tableSectors * g.bytesPerSector) =
      (([0x0FFFFFF8, 0x0FFFFFFF, 0x0FFFFFFF] : List UInt32) ++
        List.replicate (g.tableSectors * 128 - 3) 0).flatMap fun e : UInt32 =>
          Bytes.ofNat 4 e.toNat := by
    have hzeros : ∀ n, (List.replicate n (0 : UInt32)).flatMap
        (fun e : UInt32 => Bytes.ofNat 4 e.toNat) = Bytes.zeros (4 * n) := by
      intro n
      induction n with
      | zero => rfl
      | succ n ih =>
        rw [List.replicate_succ, List.flatMap_cons, ih, Nat.mul_succ, Nat.add_comm]
        exact List.replicate_append_replicate (n := 4)
    have hstart : ([0x0FFFFFF8, 0x0FFFFFFF, 0x0FFFFFFF] : List UInt32).flatMap
        (fun e : UInt32 => Bytes.ofNat 4 e.toNat) = newTableStart := by decide
    have hlen := length_newTableStart
    rw [h.offsets.1, h.sector, List.flatMap_append, hzeros, hstart]
    refine Bytes.ext_getD ?_ fun i hi => ?_
    · rw [Content.length_read, List.length_append, Bytes.length_zeros, hlen]
      omega
    · rw [Content.length_read] at hi
      rw [Content.getD_read _ _ _ _ (by omega), htable i (by omega)]
      by_cases hi12 : i < 12
      · rw [List.getD_append _ _ _ _ (by omega)]
      · rw [List.getD_append_right _ _ _ _ (by omega), Bytes.getD_zeros,
          Bytes.getD_of_length_le (by omega)]
  rw [hbytes, ClusterTable.ofBytes, decodeFrom_flatMap, Array.empty_append, newTable]

theorem link_newTable_root (g : Geometry) : (newTable g).link 2 = ClusterTable.endOfChain := by
  simp [newTable, ClusterTable.link, ClusterTable.endOfChain]

theorem link_newTable {x : Nat} (hx : 3 ≤ x) : (newTable g).link x = ClusterTable.free := by
  obtain ⟨n, rfl⟩ : ∃ n, x = n + 3 := ⟨x - 3, by omega⟩
  have hzero : (List.replicate (g.tableSectors * 128 - 3) (0 : UInt32)).getD n 0 = 0 := by
    rw [List.getD_eq_getElem?_getD, List.getElem?_replicate]
    split <;> rfl
  rw [ClusterTable.link, newTable, Array.getD_eq_getD_getElem?, List.getElem?_toArray,
    ← List.getD_eq_getElem?_getD, List.getD_append_right _ _ _ _ (by simp)]
  exact congrArg (fun u : UInt32 => u.toNat % 0x10000000) hzero

/-- What is opened after formatting. -/
theorem ofContent_formattedWith (id : Int) (h : g.New content.size) (hlabel : label.length = 11)
    (image : String) (readOnly : Bool) :
    Volume.ofContent image (formattedWith g label id content) readOnly =
      .ok { image, geometry := g, table := newTable g,
            free := Volume.countFree (newTable g) g.clusterCount.toNat, hint := 2, readOnly,
            closed := false } := by
  have hsize := size_formattedWith id h hlabel
  obtain ⟨hboot, -, -⟩ := get_formattedWith id h hlabel
  have hfit := h.root_le
  have hcount := h.clusters
  have hentries := h.entries
  have hlen := h.length_bootSector hlabel id
  have hread : (formattedWith g label id content).read 0 512 = bootSector g label id := by
    refine Bytes.ext_getD (by rw [Content.length_read, hlen]; omega) fun i hi => ?_
    rw [Content.length_read] at hi
    rw [Content.getD_read _ _ _ _ (by omega), Nat.zero_add, hboot i (by omega)]
  have hgeometry : Geometry.ofBootSector (bootSector g label id) image = .ok g := by
    refine Geometry.ofBootSector_bootSector hlabel id image (by simp [h.sector]) h.cluster ?_ ?_ ?_
      h.total_lt ?_ ?_
    · rw [h.reserved]
      decide
    · rw [h.tables]
      decide
    · rw [h.tables]
      decide
    · have := h.table_le
      omega
    · rw [h.root]
      decide
  have htable : (newTable g).size = g.tableSectors * 512 := by
    have := h.table_pos
    simp [newTable, ClusterTable.size]
    omega
  have hmemory : ¬ g.tableSectors * g.bytesPerSector > Bytes.maxHeld := by
    have := h.table_le
    rw [h.sector, Bytes.maxHeld]
    omega
  have hlong : 0 ≤ g.clusterCount ∧ 8 + 4 * g.clusterCount ≤ (newTable g).size := by
    rw [htable]
    omega
  rw [Volume.ofContent, hread, hgeometry]
  simp only [bind, Except.bind, ofBytes_newTable h hlabel]
  rw [if_neg hmemory]
  exact if_pos hlong

end New

/-! ### The new volume -/

theorem length_asciiBytes_labelText {label : String} {name : List Char}
    (h : labelText label = .ok name) : (asciiBytes name).length = 11 := by
  simp only [labelText] at h
  split at h
  · rename_i hlen
    cases h
    rw [asciiBytes, List.length_map, Text.length_padRight]
    omega
  · cases h

namespace Disk

/-- A volume that was formatted and then opened to be changed. -/
def Fresh (d : Disk) : Prop :=
  ∃ (image : String) (content : Content) (sectorsPerCluster : Int) (label : String) (volumeId : Int)
    (g : Geometry), formatImage content sectorsPerCluster label volumeId = .ok (g, d.content) ∧
      Volume.ofContent image d.content false = .ok d.volume

/-- The catalog of a new volume: an empty root directory. -/
def newCatalog (d : Disk) : Catalog := fun c =>
  if c = d.volume.geometry.rootCluster then some ⟨none, []⟩ else none

/-- The clusters of the owners in a new volume. -/
def newOwners (d : Disk) : Owner → List Nat
  | none => [d.volume.geometry.rootCluster]
  | some _ => []

theorem newCatalog_eq_some {d : Disk} {c : Nat} {f : Folder} :
    d.newCatalog c = some f ↔ c = d.volume.geometry.rootCluster ∧ f = ⟨none, []⟩ := by
  rw [newCatalog]
  split
  · simp [*, eq_comm]
  · simp [*]

theorem newCatalog_root (d : Disk) :
    d.newCatalog d.volume.geometry.rootCluster = some ⟨none, []⟩ :=
  newCatalog_eq_some.2 ⟨rfl, rfl⟩

theorem starts_newCatalog {d : Disk} {root : Nat} {o : Owner} {c : Nat}
    (h : d.newCatalog.Starts root o c) : o = none ∧ c = root := by
  cases h with
  | root => exact ⟨rfl, rfl⟩
  | record hf hr =>
    obtain ⟨-, rfl⟩ := newCatalog_eq_some.1 hf
    simp at hr

theorem mem_newOwners {d : Disk} {o : Owner} {x : Nat} :
    x ∈ d.newOwners o ↔ o = none ∧ x = d.volume.geometry.rootCluster := by
  cases o <;> simp [newOwners]

/-- A disk holds nothing when its root directory is one cluster of zeros and all other clusters are
free. -/
theorem Sound.holds_new {d : Disk} (h : d.Sound)
    (hfree : d.volume.free = (d.volume.table.freeSet d.volume.last).card)
    (hhint : d.volume.inRange d.volume.hint = true)
    (hrange : d.volume.inRange d.volume.geometry.rootCluster = true)
    (hend : d.volume.table.link d.volume.geometry.rootCluster = ClusterTable.endOfChain)
    (hzero : d.readCluster d.volume.geometry.rootCluster =
      Bytes.zeros d.volume.geometry.clusterSize)
    (hunused : ∀ x, d.volume.inRange x = true → x ≠ d.volume.geometry.rootCluster →
      d.volume.table.link x = ClusterTable.free) :
    d.Holds d.newCatalog d.newOwners [] := by
  obtain ⟨hlow, hhigh⟩ := Volume.inRange_iff.1 hrange
  have hchain : d.HasChain d.volume.geometry.rootCluster (d.newOwners none) :=
    .single hlow hhigh hend
  have hstands : Folder.Stands ⟨none, []⟩ (d.slotsIn (d.newOwners none)) := by
    obtain ⟨n, hn⟩ := h.slots
    have hslots : d.slotsIn (d.newOwners none) = List.replicate n zeroSlot := by
      rw [newOwners, slotsIn, List.flatMap_singleton, hzero, hn, slotsOf_zeros]
    rw [hslots]
    exact ⟨by simp, ⟨_, rfl, .blank _ _⟩, List.nodup_nil⟩
  refine
    { sound := h, free := hfree, hint := hhint, root_ne := by omega,
      root := ⟨_, d.newCatalog_root, rfl⟩, reach := ?_, linked := ?_, stands := ?_, body := ?_,
      owner := ?_, unique := ?_, apart := fun _ _ _ => List.not_mem_nil, covered := ?_,
      loose_nodup := List.nodup_nil, loose_used := by simp }
  · intro c f hf
    obtain ⟨rfl, -⟩ := newCatalog_eq_some.1 hf
    exact .root
  · intro o c hc
    obtain ⟨rfl, rfl⟩ := starts_newCatalog hc
    exact hchain.linked
  · intro o c f hc hf
    obtain ⟨rfl, -⟩ := starts_newCatalog hc
    obtain ⟨-, rfl⟩ := newCatalog_eq_some.1 hf
    exact hstands
  · intro dir f n r hf hr
    obtain ⟨-, rfl⟩ := newCatalog_eq_some.1 hf
    simp at hr
  · intro o x hx
    obtain ⟨rfl, -⟩ := mem_newOwners.1 hx
    exact ⟨_, .root⟩
  · intro o o' x hx hx'
    rw [(mem_newOwners.1 hx).1, (mem_newOwners.1 hx').1]
  · intro x hx hused
    refine .inr ⟨none, mem_newOwners.2 ⟨rfl, ?_⟩⟩
    by_contra hne
    exact hused (hunused x hx hne)

end Disk

/-- What an image that was formatted is. -/
theorem formatImage_eq {content content' : Content} {spc : Int} {label : String} {id : Int}
    {g : Geometry} (h : formatImage content spc label id = .ok (g, content')) :
    g.New content.size ∧ ∃ name : Bytes, name.length = 11 ∧
      content' = formattedWith g name id content := by
  rw [formatImage] at h
  cases hg : Geometry.ofSize content.size spc 512 with
  | error e =>
    rw [hg] at h
    cases h
  | ok g' =>
    cases hname : labelText label with
    | error e =>
      rw [hg, hname] at h
      cases h
    | ok name =>
      rw [hg, hname] at h
      cases h
      exact ⟨Geometry.new_of_ofSize hg, _, length_asciiBytes_labelText hname, rfl⟩

/-- Every image that can be formatted can be opened then. -/
theorem exists_fresh_of_formatImage {content content' : Content} {spc : Int} {label : String}
    {id : Int} {g : Geometry} (h : formatImage content spc label id = .ok (g, content'))
    (image : String) :
    ∃ v, Volume.ofContent image content' false = .ok v ∧ Disk.Fresh ⟨v, content'⟩ := by
  obtain ⟨hnew, name, hname, rfl⟩ := formatImage_eq h
  exact ⟨_, ofContent_formattedWith id hnew hname image false, image, content, spc, label, id, g, h,
    ofContent_formattedWith id hnew hname image false⟩

/-- An image of 64 MiB can be formatted with clusters of one sector. -/
theorem exists_formatImage : ∃ g content,
    formatImage (Content.zeros 0x4000000) 1 defaultLabel defaultVolumeId = .ok (g, content) := by
  have hsettle : Division.settle 0x4000000 0x20000 1 512 1 = .ok 1024 := by
    rw [Division.settle_one _ _ (by decide) (by decide)]
    rfl
  obtain ⟨g, hg⟩ : ∃ g, Geometry.ofSize (0x4000000 : Nat) 1 512 = .ok g := by
    rw [Geometry.ofSize, Division.ofSize]
    simp only [Nat.cast_ofNat, Int.reduceDiv, hsettle]
    exact ⟨_, rfl⟩
  have hlabel : labelText defaultLabel = .ok "NO NAME    ".toList := by decide
  rw [formatImage, hlabel, Content.size_zeros, hg]
  exact ⟨g, _, rfl⟩

namespace Disk

/-- There are volumes that were formatted. -/
theorem exists_fresh : ∃ d : Disk, d.Fresh := by
  obtain ⟨g, content, h⟩ := exists_formatImage
  obtain ⟨v, -, hfresh⟩ := exists_fresh_of_formatImage h ""
  exact ⟨_, hfresh⟩

theorem sound_formattedWith {g : Geometry} {name : Bytes} {id : Int} {content : Content}
    (h : g.New content.size) (hname : name.length = 11) (image : String) (free hint : Nat)
    (readOnly closed : Bool) :
    Sound ⟨⟨image, g, newTable g, free, hint, readOnly, closed⟩,
      formattedWith g name id content⟩ := by
  have hcount := h.clusters
  have hentries := h.entries
  have hpos := h.table_pos
  have hspc : 0 < g.sectorsPerCluster := by
    have := h.cluster
    simp only [List.mem_cons, List.not_mem_nil, or_false] at this
    omega
  have hcluster : g.clusterSize = g.sectorsPerCluster * 512 := h.offsets.2.2.2.2
  have hlast : Volume.last ⟨image, g, newTable g, free, hint, readOnly, closed⟩ =
      g.clusterCount.toNat + 1 := rfl
  have hsize : (newTable g).entries.size = g.tableSectors * 128 := by
    simp [newTable]
    omega
  refine ⟨?_, ?_, ?_, ?_, ?_, ?_, ?_, ?_, rfl, ?_⟩
  · exact h.sector.ge
  · simp only [h.reserved]
    decide
  · rw [hcluster]
    exact Dvd.dvd.mul_left (by decide) _
  · rw [hcluster]
    omega
  · simp only [Volume.clusters]
    omega
  · rw [hlast]
    simp only [ClusterTable.endOfChain]
    omega
  · rw [hlast, hsize]
    omega
  · rw [ClusterTable.size, hsize, h.sector]
    simp only [newTable, List.length_nil]
    omega
  · simp only [Volume.clusters]
    rw [size_formattedWith id h hname, h.sector, hcluster, ← Nat.mul_assoc, ← Nat.add_mul,
      ← h.total]
    exact Nat.mul_le_mul_right _ h.room

/-- An image that was formatted holds an empty root directory. -/
theorem holds_formattedWith {g : Geometry} {name : Bytes} {id : Int} {content : Content}
    (h : g.New content.size) (hname : name.length = 11) (image : String) :
    let d : Disk := ⟨⟨image, g, newTable g, Volume.countFree (newTable g) g.clusterCount.toNat, 2,
      false, false⟩, formattedWith g name id content⟩
    d.Holds d.newCatalog d.newOwners [] := by
  intro d
  have hsound : d.Sound := sound_formattedWith h hname image _ _ _ _
  have hroot : d.volume.geometry.rootCluster = 2 := h.root
  have htwo : d.volume.inRange 2 = true := by
    rw [Volume.inRange_iff, Volume.last]
    have := hsound.clusters
    omega
  have hzero : d.readCluster 2 = Bytes.zeros d.volume.geometry.clusterSize := by
    obtain ⟨-, -, hzero⟩ := get_formattedWith id h hname
    have hoffset : d.offset 2 = (32 + 2 * g.tableSectors) * 512 := by
      have := h.offsets.2.2.2.1
      rwa [h.root] at this
    have hsize : d.volume.geometry.clusterSize = g.sectorsPerCluster * 512 := h.offsets.2.2.2.2
    refine Bytes.ext_getD ?_ fun i hi => ?_
    · rw [hsound.length_readCluster htwo, Bytes.length_zeros]
    · rw [hsound.length_readCluster htwo] at hi
      rw [getD_readCluster _ hi, Bytes.getD_zeros, hoffset]
      exact hzero i (hsize ▸ hi)
  refine hsound.holds_new (ClusterTable.countFree_eq _ _) htwo ?_ ?_ ?_ fun x hx hne => ?_
  · rwa [hroot]
  · rw [hroot]
    exact link_newTable_root g
  · rwa [hroot]
  · have hlow := (Volume.inRange_iff.1 hx).1
    exact link_newTable (by omega)

/-- A new volume can be changed, and it holds an empty root directory. -/
theorem Fresh.holds {d : Disk} (h : d.Fresh) : d.volume.closed = false ∧
    d.volume.readOnly = false ∧ d.Holds d.newCatalog d.newOwners [] := by
  obtain ⟨image, content, spc, label, id, g, hformat, hopen⟩ := h
  obtain ⟨hnew, name, hname, hcontent⟩ := formatImage_eq hformat
  obtain ⟨v, c⟩ := d
  obtain rfl : c = formattedWith g name id content := hcontent
  have heq := ofContent_formattedWith id hnew hname image false
  obtain rfl := Except.ok.inj (hopen.symm.trans heq)
  exact ⟨rfl, rfl, holds_formattedWith hnew hname image⟩

/-- All clusters of a new volume but that of its root directory are free. -/
theorem Fresh.free_ge {d : Disk} (h : d.Fresh) : Error.minClusters - 1 ≤ d.volume.free := by
  obtain ⟨-, -, hholds⟩ := h.holds
  obtain ⟨image, content, spc, label, id, g, hformat, hopen⟩ := h
  obtain ⟨hnew, name, hname, hcontent⟩ := formatImage_eq hformat
  have heq := ofContent_formattedWith id hnew hname image false
  rw [← hcontent] at heq
  have hvolume := Except.ok.inj (hopen.symm.trans heq)
  have hmany := hnew.clusters.1
  have hlast : d.volume.last = g.clusterCount.toNat + 1 := by
    rw [Volume.last, Volume.clusters, hvolume]
  have htable : d.volume.table = newTable g := by rw [hvolume]
  have hsub : Finset.Icc 3 d.volume.last ⊆ d.volume.table.freeSet d.volume.last := by
    intro x hx
    obtain ⟨hlow, hhigh⟩ := Finset.mem_Icc.1 hx
    refine ClusterTable.mem_freeSet.2 ⟨⟨by omega, hhigh⟩, ?_⟩
    rw [htable]
    exact link_newTable hlow
  have hcard := Finset.card_le_card hsub
  rw [← hholds.free, Nat.card_Icc, hlast] at hcard
  rw [Error.minClusters]
  omega

end Disk

end Fat

end BootImage
