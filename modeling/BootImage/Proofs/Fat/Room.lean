import BootImage.Proofs.Fat.Growing
import BootImage.Proofs.Fat.Opening
import Mathlib.Algebra.Order.Floor.Div
import Mathlib.Order.Bounds.Basic

/-!
# The first room in a directory

The search for room goes over the slots once and keeps the run of free ones that it is in. A run can
begin with deleted slots and go on where the directory ends, so it is kept up to the end mark, and
zeros that are added behind the directory make it longer. What the search has passed is told slot by
slot: the end mark was not among it, the run is of deleted slots, and no room begins before the run.

A directory without room grows by a cluster at a time. Both loops that count on this, the one that
grows it and the one that only asks by how much it would grow, are told here without the limits that
they are written with; that the limits are never reached is part of the result.

## Main definitions

* `IsFree`, `HasRoom`: free slots, and room for some number of them.
* `Passed`: what is known when the search has come to a slot.
* `Edit.FindsPlace`: the loop that grows a directory, without a limit.

## Main results

* `freeRun_eq_some_iff`, `freeRun_eq_none_iff`: the search finds the first room.
* `growth_le`: a directory grows by no more clusters than hold the slots.
* `Edit.findsPlace_findPlace`: the search for a place is the loop without a limit.
* `freeRun_firstFit`: all of this, for the clusters of any volume.
-/

namespace BootImage.Fat

/-! ### Slots by number -/

/-- There are as many slots as fit, and each starts where its number says. -/
theorem slotsOf_facts (data : Bytes) : (slotsOf data).length = data.length / slotSize ∧
    ∀ number (h : number < (slotsOf data).length),
      (slotsOf data)[number].getD 0 0 = data.getD (slotSize * number) 0 := by
  induction hn : data.length / slotSize generalizing data with
  | zero =>
    have hshort : data.length < slotSize := by
      rcases Nat.div_eq_zero_iff.1 hn with hzero | hlt
      · exact absurd hzero (by decide)
      · exact hlt
    rw [slotsOf_of_length_lt hshort]
    exact ⟨rfl, fun number h => absurd h (Nat.not_lt_zero _)⟩
  | succ n ih =>
    have hlong : slotSize ≤ data.length := by
      by_contra hlt
      rw [Nat.div_eq_of_lt (by omega)] at hn
      omega
    obtain ⟨slot, rest, rfl, hslot⟩ : ∃ slot rest, data = slot ++ rest ∧ slot.length = slotSize :=
      ⟨data.take slotSize, data.drop slotSize, (List.take_append_drop ..).symm,
        List.length_take_of_le hlong⟩
    have hrest : rest.length / slotSize = n := by
      rw [List.length_append, hslot, Nat.add_div_left _ (by decide)] at hn
      omega
    obtain ⟨hlength, hget⟩ := ih rest hrest
    rw [slotsOf_append_of_length rest hslot]
    refine ⟨congrArg Nat.succ hlength, fun number h => ?_⟩
    cases number with
    | zero =>
      rw [List.getElem_cons_zero, Nat.mul_zero, List.getD_append _ _ _ _ (by rw [hslot]; decide)]
    | succ number =>
      rw [List.getElem_cons_succ, hget, Nat.mul_succ, Nat.add_comm,
        List.getD_append_right _ _ _ _ (by omega), hslot, Nat.add_sub_cancel_left]

/-! ### Room -/

/-- The slot with a number is free: it is a deleted one, or the directory has ended there or
before. -/
def IsFree (data : Bytes) (number : Nat) : Prop :=
  data.getD (slotSize * number) 0 = deletedMark ∨ ∃ j ≤ number, data.getD (slotSize * j) 0 = 0

/-- There is room for so many slots from a number on: all of them exist, and all are free. -/
structure HasRoom (data : Bytes) (count start : Nat) : Prop where
  exist : slotSize * (start + count) ≤ data.length
  free : ∀ i < count, IsFree data (start + i)

/-- What is known when the search for room has come to a slot, with so many free slots before it. -/
structure Passed (data : Bytes) (count run number : Nat) : Prop where
  run_le : run ≤ number
  run_lt : run < count
  /-- The directory has not ended. -/
  used : ∀ j < number, data.getD (slotSize * j) 0 ≠ 0
  /-- The free slots are deleted ones. -/
  deleted : ∀ j < number, number ≤ j + run → data.getD (slotSize * j) 0 = deletedMark
  /-- There is no room before them. -/
  none : ∀ start < number - run, ¬ HasRoom data count start

section

variable {data : Bytes} {count run number : Nat}

namespace Passed

theorem zero (h : 0 < count) : Passed data count 0 0 where
  run_le := Nat.le_refl 0
  run_lt := h
  used := fun j hj => absurd hj (Nat.not_lt_zero j)
  deleted := fun j hj => absurd hj (Nat.not_lt_zero j)
  none := fun start hstart => absurd hstart (Nat.not_lt_zero start)

/-- A deleted slot is one more. -/
theorem next (h : Passed data count run number)
    (hdeleted : data.getD (slotSize * number) 0 = deletedMark) (hrun : run + 1 < count) :
    Passed data count (run + 1) (number + 1) where
  run_le := Nat.succ_le_succ h.run_le
  run_lt := hrun
  used := fun j hj => by
    rcases Nat.lt_succ_iff_lt_or_eq.1 hj with hj | rfl
    · exact h.used j hj
    · rw [hdeleted]
      decide
  deleted := fun j hj hlow => by
    rcases Nat.lt_succ_iff_lt_or_eq.1 hj with hj | rfl
    · exact h.deleted j hj (by omega)
    · exact hdeleted
  none := fun start hstart => h.none start (by omega)

/-- Behind a slot that is used the search starts anew: no room has it inside. -/
theorem skip (h : Passed data count run number) (hzero : data.getD (slotSize * number) 0 ≠ 0)
    (hdeleted : data.getD (slotSize * number) 0 ≠ deletedMark) :
    Passed data count 0 (number + 1) where
  run_le := Nat.zero_le _
  run_lt := Nat.zero_lt_of_lt h.run_lt
  used := fun j hj => by
    rcases Nat.lt_succ_iff_lt_or_eq.1 hj with hj | rfl
    · exact h.used j hj
    · exact hzero
  deleted := fun j hj hlow => by omega
  none := fun start hstart hroom => by
    by_cases hbefore : start < number - run
    · exact h.none start hbefore hroom
    have hrun := h.run_lt
    have hle := h.run_le
    have hfree := hroom.free (number - start) (by omega)
    rw [show start + (number - start) = number by omega] at hfree
    rcases hfree with hfree | ⟨j, hj, hend⟩
    · exact hdeleted hfree
    · rcases Nat.lt_or_eq_of_le hj with hj | rfl
      · exact h.used j hj hend
      · exact hzero hend

/-- The room that begins with the free slots is the first. -/
theorem isLeast (h : Passed data count run number)
    (hexist : slotSize * (number - run + count) ≤ data.length)
    (hfree : ∀ j, number ≤ j → j < number - run + count → IsFree data j) :
    IsLeast {start | HasRoom data count start} (number - run) := by
  refine ⟨⟨hexist, fun i hi => ?_⟩, fun start hroom => ?_⟩
  · by_cases hbefore : number - run + i < number
    · exact .inl (h.deleted _ hbefore (by omega))
    · exact hfree _ (by omega) (by omega)
  · by_contra hlt
    exact h.none start (by omega) hroom

/-- There is no room at all when the slots that are left are too few. -/
theorem not_hasRoom (h : Passed data count run number)
    (hfew : data.length < slotSize * (number - run + count)) (start : Nat) :
    ¬ HasRoom data count start := by
  intro hroom
  have hlow : number - run ≤ start := Nat.le_of_not_lt fun hlt => h.none start hlt hroom
  have hexist := hroom.exist
  have := Nat.mul_le_mul_left slotSize (Nat.add_le_add_right hlow count)
  omega

end Passed

/-- The search from a slot on finds the first room, or there is none. -/
theorem freeRunFrom_spec (rest : List Bytes) (h : Passed data count run number)
    (htotal : number + rest.length = data.length / slotSize)
    (hrest : ∀ i (hi : i < rest.length),
      rest[i].getD 0 0 = data.getD (slotSize * (number + i)) 0) :
    (∃ start, freeRunFrom count (data.length / slotSize) run number rest = some start ∧
        IsLeast {start | HasRoom data count start} start) ∨
      freeRunFrom count (data.length / slotSize) run number rest = none ∧
        ∀ start, ¬ HasRoom data count start := by
  have hslots (n : Nat) : slotSize * n ≤ data.length ↔ n ≤ data.length / slotSize := by
    rw [Nat.le_div_iff_mul_le (by decide), Nat.mul_comm]
  have hle := h.run_le
  have hrun := h.run_lt
  induction rest generalizing run number with
  | nil =>
    rw [List.length_nil] at htotal
    refine .inr ⟨rfl, h.not_hasRoom ?_⟩
    rw [← Nat.not_le, hslots]
    omega
  | cons slot rest ih =>
    have hfirst := hrest 0 (Nat.zero_lt_succ _)
    rw [List.getElem_cons_zero, Nat.add_zero] at hfirst
    rw [List.length_cons] at htotal
    have htail : ∀ i (hi : i < rest.length),
        rest[i].getD 0 0 = data.getD (slotSize * (number + 1 + i)) 0 := fun i hi => by
      have hnext := hrest (i + 1) (Nat.succ_lt_succ hi)
      rw [List.getElem_cons_succ] at hnext
      rw [hnext, Nat.add_right_comm, Nat.add_assoc]
    simp only [freeRunFrom, hfirst]
    by_cases hzero : data.getD (slotSize * number) 0 = 0
    · -- Everything from here on is free.
      rw [if_pos hzero]
      by_cases hroom : count ≤ data.length / slotSize - (number - run)
      · rw [if_pos hroom]
        exact .inl ⟨_, rfl, h.isLeast ((hslots _).2 (by omega))
          fun j hj _ => .inr ⟨number, hj, hzero⟩⟩
      · rw [if_neg hroom]
        refine .inr ⟨rfl, h.not_hasRoom ?_⟩
        rw [← Nat.not_le, hslots]
        omega
    rw [if_neg hzero]
    by_cases hdeleted : data.getD (slotSize * number) 0 = deletedMark
    · rw [if_pos hdeleted]
      by_cases hroom : count ≤ run + 1
      · rw [if_pos hroom]
        refine .inl ⟨_, rfl, h.isLeast ((hslots _).2 (by omega)) fun j hj hlt => ?_⟩
        obtain rfl : j = number := by omega
        exact .inl hdeleted
      · rw [if_neg hroom]
        exact ih (h.next hdeleted (by omega)) (by omega) htail (by omega) (by omega)
    · rw [if_neg hdeleted]
      exact ih (h.skip hzero hdeleted) (by omega) htail (by omega) (by omega)

/-- The search finds the first room, or there is none. -/
theorem freeRun_spec (data : Bytes) (h : 0 < count) :
    (∃ start, freeRun data count = some start ∧
        IsLeast {start | HasRoom data count start} start) ∨
      freeRun data count = none ∧ ∀ start, ¬ HasRoom data count start := by
  obtain ⟨hlength, hget⟩ := slotsOf_facts data
  rw [freeRun, hlength]
  refine freeRunFrom_spec (slotsOf data) (.zero h) (by rw [Nat.zero_add, hlength]) fun i hi => ?_
  rw [Nat.zero_add]
  exact hget i hi

theorem freeRun_eq_some_iff (h : 0 < count) (start : Nat) :
    freeRun data count = some start ↔ IsLeast {start | HasRoom data count start} start := by
  rcases freeRun_spec data h with ⟨found, hfound, hleast⟩ | ⟨hnone, hno⟩
  · rw [hfound, Option.some.injEq]
    exact ⟨fun heq => heq ▸ hleast, hleast.unique⟩
  · rw [hnone]
    exact ⟨fun heq => (nomatch heq), fun hleast => absurd hleast.1 (hno start)⟩

theorem freeRun_eq_none_iff (h : 0 < count) :
    freeRun data count = none ↔ ∀ start, ¬ HasRoom data count start := by
  rcases freeRun_spec data h with ⟨found, hfound, hleast⟩ | ⟨hnone, hno⟩
  · rw [hfound]
    exact ⟨fun heq => (nomatch heq), fun hno => absurd hleast.1 (hno found)⟩
  · exact ⟨fun _ => hno, fun _ => hnone⟩

/-- Zeros behind a directory are room for all slots that they hold. -/
theorem hasRoom_append_zeros {size : Nat} (hdata : slotSize ∣ data.length)
    (hsize : slotSize * count ≤ size) :
    HasRoom (data ++ Bytes.zeros size) count (data.length / slotSize) := by
  have hend := Nat.mul_div_cancel' hdata
  refine ⟨?_, fun i _ => .inr ⟨data.length / slotSize, by omega, ?_⟩⟩
  · rw [List.length_append, Bytes.zeros, List.length_replicate, Nat.mul_add, hend]
    omega
  · rw [hend, List.getD_append_right _ _ _ _ (Nat.le_refl _), Nat.sub_self, Bytes.zeros]
    cases size <;> rfl

end

/-! ### Growing until there is room -/

/-- The growth of a directory is the least number of clusters that makes room. -/
theorem isLeast_growth {data : Bytes} {clusterSize count : Nat} (hdata : slotSize ∣ data.length)
    (hsize : slotSize ∣ clusterSize) (hpos : 0 < clusterSize) (hcount : 0 < count) :
    IsLeast {n | (freeRun (data ++ Bytes.zeros (n * clusterSize)) count).isSome = true}
      (growth data clusterSize count) := by
  obtain ⟨hroom, -, hnone⟩ := Edit.growth_facts hdata hsize hpos hcount
  refine ⟨hroom, fun n hn => ?_⟩
  by_contra hlt
  rw [Set.mem_ofPred_eq, hnone n (by omega)] at hn
  cases hn

/-- A directory grows by no more clusters than hold the slots. -/
theorem growth_le {data : Bytes} {clusterSize count : Nat} (hdata : slotSize ∣ data.length)
    (hsize : slotSize ∣ clusterSize) (hpos : 0 < clusterSize) (hcount : 0 < count) :
    growth data clusterSize count ≤ (slotSize * count) ⌈/⌉ clusterSize := by
  refine (isLeast_growth hdata hsize hpos hcount).2 ?_
  have hholds : slotSize * count ≤ (slotSize * count) ⌈/⌉ clusterSize * clusterSize := by
    rw [Nat.mul_comm ((slotSize * count) ⌈/⌉ clusterSize), ← smul_eq_mul]
    exact le_smul_ceilDiv hpos
  rw [Set.mem_ofPred_eq, Option.isSome_iff_ne_none, Ne, freeRun_eq_none_iff hcount]
  exact fun hno => hno _ (hasRoom_append_zeros hdata hholds)

namespace Edit

/-- A directory is made longer by one cluster, which is linked to the last one and filled with
zeros. -/
def enlarge (clusters : List Nat) (data : Bytes) : Edit (List Nat × Bytes) := do
  let added ← allocate 1
  match clusters.getLast?, added with
  | some lastCluster, cluster :: _ =>
    link lastCluster cluster
    modify (·.writeCluster cluster [])
    let size := (← get).volume.geometry.clusterSize
    return (clusters ++ [cluster], data ++ Bytes.zeros size)
  | _, _ => throw .noLastCluster

/-- The loop that makes a directory longer until it has room, without a limit: after so many rounds
it has found a place, or a further round has failed. -/
inductive FindsPlace (count : Nat) :
    (rounds : Nat) → List Nat → Bytes → Disk → Except Error (List Nat × Nat) × Disk → Prop
  | found {clusters data d start} (h : freeRun data count = some start) :
    FindsPlace count 0 clusters data d (.ok (clusters, start), d)
  | failed {clusters data d e d'} (h : freeRun data count = none)
    (herror : (enlarge clusters data).on d = (.error e, d')) :
    FindsPlace count 0 clusters data d (.error e, d')
  | round {clusters data d clusters' data' d' rounds result} (h : freeRun data count = none)
    (hok : (enlarge clusters data).on d = (.ok (clusters', data'), d'))
    (hrest : FindsPlace count rounds clusters' data' d' result) :
    FindsPlace count (rounds + 1) clusters data d result

theorem findPlace_of_none {count : Nat} {data : Bytes} (h : freeRun data count = none)
    (limit : Nat) (clusters : List Nat) :
    findPlace count (limit + 1) clusters data =
      enlarge clusters data >>= fun longer => findPlace count limit longer.1 longer.2 := by
  simp only [findPlace, h, enlarge, bind_assoc]
  refine bind_congr fun added => ?_
  cases clusters.getLast? with
  | none => rfl
  | some lastCluster =>
    cases added with
    | nil => rfl
    | cons cluster rest => rfl

theorem geometry_of_allocate {v v' : Volume} {count : Int} {added : List Nat}
    (h : v.allocate count = .ok (added, v')) : v'.geometry = v.geometry := by
  rw [Volume.allocate] at h
  by_cases hzero : count = 0
  · rw [if_pos hzero] at h
    cases h
    rfl
  by_cases hfew : count > v.free
  · simp only [if_neg hzero, if_pos hfew] at h
    cases h
  by_cases hneg : count < 0
  · simp only [if_neg hzero, if_neg hfew, if_pos hneg] at h
    cases h
  simp only [if_neg hzero, if_neg hfew, if_neg hneg] at h
  cases h
  rfl

/-- A cluster of zeros is added, and the geometry stays. -/
theorem enlarge_ok {clusters clusters' : List Nat} {data data' : Bytes} {d d' : Disk}
    (h : (enlarge clusters data).on d = (.ok (clusters', data'), d')) :
    data' = data ++ Bytes.zeros d.volume.geometry.clusterSize ∧
      d'.volume.geometry = d.volume.geometry := by
  rw [enlarge] at h
  cases halloc : d.volume.allocate 1 with
  | error e =>
    have hfail : (allocate 1).on d = (.error e, d) := onVolume_error halloc
    rw [on_bind_error _ hfail] at h
    cases h
  | ok taken =>
    obtain ⟨added, v⟩ := taken
    have htake : (allocate 1).on d = (.ok added, { d with volume := v }) := onVolume_ok halloc
    rw [on_bind_ok _ htake] at h
    have hgeometry : v.geometry = d.volume.geometry := geometry_of_allocate halloc
    cases hlast : clusters.getLast? with
    | none =>
      rw [hlast] at h
      cases h
    | some lastCluster =>
      rw [hlast] at h
      cases added with
      | nil => cases h
      | cons cluster rest =>
        cases h
        exact ⟨by rw [← hgeometry]; rfl, hgeometry⟩

/-- With a limit that is high enough the search is the loop without one. -/
theorem findsPlace_findPlace {count n limit : Nat} {data : Bytes} (hlimit : n ≤ limit)
    (clusters : List Nat) (d : Disk)
    (hroom : (freeRun (data ++ Bytes.zeros (n * d.volume.geometry.clusterSize)) count).isSome =
      true) :
    ∃ rounds ≤ n, FindsPlace count rounds clusters data d
      ((findPlace count limit clusters data).on d) := by
  induction n generalizing limit clusters data d with
  | zero =>
    rw [Nat.zero_mul] at hroom
    obtain ⟨start, hstart⟩ := Option.isSome_iff_exists.1 hroom
    rw [show data ++ Bytes.zeros 0 = data from List.append_nil data] at hstart
    refine ⟨0, Nat.le_refl 0, ?_⟩
    cases limit with
    | zero =>
      rw [findPlace, hstart]
      exact .found hstart
    | succ limit =>
      rw [findPlace, hstart]
      exact .found hstart
  | succ n ih =>
    obtain ⟨limit, rfl⟩ := Nat.exists_eq_succ_of_ne_zero (by omega : limit ≠ 0)
    cases hfirst : freeRun data count with
    | some start =>
      rw [findPlace, hfirst]
      exact ⟨0, Nat.zero_le _, .found hfirst⟩
    | none =>
      rw [findPlace_of_none hfirst]
      rcases hrun : (enlarge clusters data).on d with ⟨e | ⟨clusters', data'⟩, d'⟩
      · rw [on_bind_error _ hrun]
        exact ⟨0, Nat.zero_le _, .failed hfirst hrun⟩
      · obtain ⟨hdata, hgeometry⟩ := enlarge_ok hrun
        rw [on_bind_ok _ hrun]
        have hroom' : (freeRun (data' ++ Bytes.zeros (n * d'.volume.geometry.clusterSize))
            count).isSome = true := by
          rw [hdata, hgeometry, List.append_assoc, zeros_append_zeros, Nat.add_comm, ← Nat.succ_mul]
          exact hroom
        obtain ⟨rounds, hle, hfinds⟩ := ih (by omega : n ≤ limit) clusters' d' hroom'
        exact ⟨rounds + 1, Nat.succ_le_succ hle, .round hfirst hrun hfinds⟩

end Edit

/-! ### Volumes -/

/-- The clusters of any volume hold whole slots. -/
theorem clusterSize_facts {boot : Bytes} {image : String} {g : Geometry}
    (h : Geometry.ofBootSector boot image = .ok g) :
    slotSize ∣ g.clusterSize ∧ 0 < g.clusterSize := by
  have hends := Geometry.ends_ofBootSector image boot
  rw [h] at hends
  obtain ⟨hpower, -, hsector⟩ := hends
  have hsectors : 0 < g.sectorsPerCluster := by
    rw [Nat.pos_iff_ne_zero]
    intro hzero
    rw [hzero] at hpower
    cases hpower
  have hwhole : ∀ n ∈ [512, 1024, 2048, 4096], slotSize ∣ n ∧ 0 < n := by decide
  obtain ⟨hdvd, hpos⟩ := hwhole _ hsector
  exact ⟨Dvd.dvd.mul_left hdvd _, Nat.mul_pos hsectors hpos⟩

/-- The search finds the first room, and none just if there is none. A directory of whole clusters
grows by as many clusters as the least number that makes room, which hold no more than the slots
need, and the loop that grows it has ended after so many rounds. -/
theorem freeRun_firstFit {count : Nat} (hcount : 0 < count) (data : Bytes) :
    (∀ start, freeRun data count = some start ↔
        IsLeast {start | HasRoom data count start} start) ∧
      (freeRun data count = none ↔ ∀ start, ¬ HasRoom data count start) ∧
      ∀ boot image g, Geometry.ofBootSector boot image = .ok g → g.clusterSize ∣ data.length →
        IsLeast {n | (freeRun (data ++ Bytes.zeros (n * g.clusterSize)) count).isSome = true}
            (growth data g.clusterSize count) ∧
          growth data g.clusterSize count ≤ (slotSize * count) ⌈/⌉ g.clusterSize ∧
          ∀ (clusters : List Nat) (d : Disk), d.volume.geometry = g →
            ∃ rounds ≤ (slotSize * count) ⌈/⌉ g.clusterSize,
              Edit.FindsPlace count rounds clusters data d
                ((Edit.findPlace count count clusters data).on d) := by
  refine ⟨freeRun_eq_some_iff hcount, freeRun_eq_none_iff hcount, fun boot image g hg hdata => ?_⟩
  obtain ⟨hslots, hpos⟩ := clusterSize_facts hg
  have hwhole := hslots.trans hdata
  have hleast := isLeast_growth hwhole hslots hpos hcount
  have hle := growth_le hwhole hslots hpos hcount
  refine ⟨hleast, hle, ?_⟩
  rintro clusters d rfl
  obtain ⟨-, hlimit, -⟩ := Edit.growth_facts hwhole hslots hpos hcount
  obtain ⟨rounds, hrounds, hfinds⟩ := Edit.findsPlace_findPlace hlimit clusters d hleast.1
  exact ⟨rounds, hrounds.trans hle, hfinds⟩

/-- A directory of one cluster of 512 bytes that is full has no room for 17 slots, and grows by two
clusters at most to have it. -/
theorem freeRun_firstFit_full :
    freeRun (List.replicate 512 0x41) 17 = none ∧
      Geometry.ofBootSector (Disk.circle.slice 0 512) "fs.img" = .ok Disk.circleGeometry ∧
      growth (List.replicate 512 0x41) Disk.circleGeometry.clusterSize 17 ≤ 2 := by
  have hboot : Geometry.ofBootSector (Disk.circle.slice 0 512) "fs.img" =
      .ok Disk.circleGeometry := by
    decide +kernel
  obtain ⟨-, hnone, hvolumes⟩ := freeRun_firstFit (by decide : 0 < 17) (List.replicate 512 0x41)
  obtain ⟨-, hle, -⟩ := hvolumes _ _ _ hboot (by rw [List.length_replicate]; decide)
  rw [Nat.ceilDiv_eq_add_pred_div] at hle
  refine ⟨hnone.2 fun start hroom => ?_, hboot, hle⟩
  have hexist := hroom.exist
  rw [List.length_replicate, slotSize] at hexist
  omega

end BootImage.Fat
