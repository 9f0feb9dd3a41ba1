import BootImage.Proofs.Fat.Record
import Mathlib.Data.List.Nodup

/-!
# The slots of a directory

Between the records of a directory there are deleted slots, and behind the last of them only blank
ones, on which reading stops. `Arrangement` says so of a list of slots; which records it holds, and
at which slots, is part of the statement. A record is taken out by marking its slots as deleted and
put in where `freeRun` finds room; either way the slots are again so arranged.

A `Folder` is what a directory holds. That one folder has a record more than another is one
relation, `Folder.Adds`, which serves for putting in and, read backwards, for taking out.

## Main definitions

* `Arrangement`: slots with the records in them.
* `writeFrom`: slots with some of them written over, one after the other.
* `Folder`, `Folder.Stands`: what a directory holds, and that slots hold it.

## Main results

* `Arrangement.parseFrom_eq`: reading gives the entries of the records.
* `Folder.Stands.exists_room`: where `freeRun` finds room a record can be put in.
* `Folder.Stands.strike`: a record can be taken out.
* `isSome_freeRunFrom`: there is room where enough blank slots are left.
-/

namespace BootImage.Fat

/-! ### The search for room -/

/-- The search for room passes over slots that are in use and starts anew behind them. -/
theorem freeRunFrom_used (count total : Nat) {used : List Bytes} (hne : used ≠ [])
    (hused : ∀ s ∈ used, s.getD 0 0 ≠ 0 ∧ s.getD 0 0 ≠ deletedMark) (run k : Nat)
    (slots : List Bytes) :
    freeRunFrom count total run k (used ++ slots) =
      freeRunFrom count total 0 (k + used.length) slots := by
  induction used generalizing run k with
  | nil => exact absurd rfl hne
  | cons s used ih =>
    rw [List.forall_mem_cons] at hused
    rw [List.cons_append, freeRunFrom, if_neg hused.1.1, if_neg hused.1.2, List.length_cons]
    cases used with
    | nil => rfl
    | cons t used =>
      rw [ih (by simp) hused.2, Nat.add_assoc, Nat.add_comm 1]

/-- With enough blank slots at the end the search finds room. -/
theorem isSome_freeRunFrom {count total blank : Nat} (hpos : 0 < count) (hblank : count ≤ blank)
    (slots : List Bytes) (run k : Nat) (htotal : total = k + slots.length + blank) :
    (freeRunFrom count total run k (slots ++ List.replicate blank zeroSlot)).isSome = true := by
  induction slots generalizing run k with
  | nil =>
    obtain ⟨n, rfl⟩ : ∃ n, blank = n + 1 := ⟨blank - 1, by omega⟩
    have hzero : zeroSlot.getD 0 0 = 0 := rfl
    rw [List.nil_append, List.replicate_succ, freeRunFrom, hzero]
    rw [List.length_nil] at htotal
    rw [if_pos rfl, if_pos (by omega)]
    rfl
  | cons s slots ih =>
    rw [List.length_cons] at htotal
    rw [List.cons_append, freeRunFrom]
    split
    · rw [if_pos (by omega)]
      rfl
    · split
      · split
        · rfl
        · exact ih _ _ (by omega)
      · exact ih _ _ (by omega)

/-! ### Arranged slots -/

/-- The slots from number `k` on hold the given records, each with the number of its first slot. -/
inductive Arrangement : Nat → List Bytes → List (Nat × Record) → Prop
  | blank (k count : Nat) : Arrangement k (List.replicate count zeroSlot) []
  | deleted {k : Nat} {s : Bytes} {slots : List Bytes} {rs : List (Nat × Record)}
      (hlen : s.length = slotSize) (hmark : s.getD 0 0 = deletedMark)
      (rest : Arrangement (k + 1) slots rs) : Arrangement k (s :: slots) rs
  | record {k : Nat} {r : Record} {slots : List Bytes} {rs : List (Nat × Record)}
      (hr : r.WellFormed) (rest : Arrangement (k + r.slots.length) slots rs) :
      Arrangement k (r.slots ++ slots) ((k, r) :: rs)

namespace Arrangement

variable {k n : Nat} {slots : List Bytes} {rs : List (Nat × Record)} {r : Record}

theorem length_of_mem (h : Arrangement k slots rs) : ∀ s ∈ slots, s.length = slotSize := by
  induction h with
  | blank =>
    intro s hs
    rw [(List.mem_replicate.1 hs).2, length_zeroSlot]
  | deleted hlen _ _ ih => exact List.forall_mem_cons.2 ⟨hlen, ih⟩
  | record hr _ ih =>
    intro s hs
    rcases List.mem_append.1 hs with hs | hs
    · exact (hr.of_mem_slots hs).1
    · exact ih s hs

theorem wellFormed (h : Arrangement k slots rs) (hmem : (n, r) ∈ rs) : r.WellFormed := by
  induction h with
  | blank => simp at hmem
  | deleted _ _ _ ih => exact ih hmem
  | record hr _ ih =>
    rcases List.mem_cons.1 hmem with heq | hmem
    · cases heq
      exact hr
    · exact ih hmem

/-- Reading gives the entries of the records, in order. -/
theorem parseFrom_eq (h : Arrangement k slots rs) :
    parseFrom .none k slots = rs.map fun x => x.2.entry x.1 := by
  induction h with
  | blank k count =>
    cases count with
    | zero => rfl
    | succ count => rfl
  | deleted _ hmark _ ih =>
    rw [parseFrom]
    simp only [hmark]
    rw [if_neg (by decide), if_pos trivial, ih]
  | record hr _ ih => rw [parseFrom_record hr, ih, List.map_cons]

/-- The records stand in the order of their numbers. -/
theorem number_le (h : Arrangement k slots rs) (hmem : (n, r) ∈ rs) :
    k ≤ n ∧ n + r.slots.length ≤ k + slots.length := by
  induction h with
  | blank => simp at hmem
  | deleted _ _ _ ih =>
    have := ih hmem
    rw [List.length_cons]
    omega
  | record _ _ ih =>
    rw [List.length_append]
    rcases List.mem_cons.1 hmem with heq | hmem
    · cases heq
      omega
    · have := ih hmem
      omega

theorem pairwise (h : Arrangement k slots rs) : rs.Pairwise fun x y => x.1 < y.1 := by
  induction h with
  | blank => exact List.Pairwise.nil
  | deleted _ _ _ ih => exact ih
  | @record k r slots rs hr rest ih =>
    refine List.pairwise_cons.2 ⟨fun y hy => ?_, ih⟩
    have hle := (rest.number_le hy).1
    have hpos := r.length_slots_pos
    omega

/-- Blank slots can follow. -/
theorem append_zeros (h : Arrangement k slots rs) (count : Nat) :
    Arrangement k (slots ++ List.replicate count zeroSlot) rs := by
  induction h with
  | blank k blank =>
    rw [List.replicate_append_replicate]
    exact .blank k _
  | deleted hlen hmark _ ih => exact .deleted hlen hmark ih
  | record hr _ ih =>
    rw [List.append_assoc]
    exact .record hr ih

/-- Deleted slots can come before. -/
theorem append_deleted {mid : List Bytes}
    (hmid : ∀ s ∈ mid, s.length = slotSize ∧ s.getD 0 0 = deletedMark)
    (h : Arrangement (k + mid.length) slots rs) : Arrangement k (mid ++ slots) rs := by
  induction mid generalizing k with
  | nil => exact h
  | cons s mid ih =>
    rw [List.forall_mem_cons] at hmid
    refine .deleted hmid.1.1 hmid.1.2 (ih hmid.2 ?_)
    rwa [Nat.add_assoc, Nat.add_comm 1]

/-! ### Taking out -/

/-- The slots of a record can be made deleted ones. -/
theorem exists_split (h : Arrangement k slots rs) (hmem : (n, r) ∈ rs) :
    ∃ pre post before after, slots = pre ++ r.slots ++ post ∧ n = k + pre.length ∧
      rs = before ++ (n, r) :: after ∧
      ∀ mid : List Bytes, mid.length = r.slots.length →
        (∀ s ∈ mid, s.length = slotSize ∧ s.getD 0 0 = deletedMark) →
        Arrangement k (pre ++ mid ++ post) (before ++ after) := by
  induction h with
  | blank => simp at hmem
  | @deleted k s slots rs hlen hmark _ ih =>
    obtain ⟨pre, post, before, after, rfl, hn, hrs, hcut⟩ := ih hmem
    refine ⟨s :: pre, post, before, after, rfl, ?_, hrs, fun mid hmid hall => ?_⟩
    · rw [List.length_cons]
      omega
    · exact .deleted hlen hmark (hcut mid hmid hall)
  | @record k r' slots rs hr rest ih =>
    rcases List.mem_cons.1 hmem with heq | hmem
    · cases heq
      refine ⟨[], slots, [], rs, rfl, rfl, rfl, fun mid hmid hall => ?_⟩
      exact append_deleted hall (by rwa [List.nil_append, hmid])
    · obtain ⟨pre, post, before, after, rfl, hn, rfl, hcut⟩ := ih hmem
      refine ⟨r'.slots ++ pre, post, (k, r') :: before, after, ?_, ?_, rfl,
        fun mid hmid hall => ?_⟩
      · simp only [List.append_assoc]
      · rw [List.length_append]
        omega
      · have := Arrangement.record hr (hcut mid hmid hall)
        simpa only [List.append_assoc, List.cons_append] using this

/-! ### Putting in -/

/-- Where the search finds room, a record of the right size can be put in. The slots of `run` are
the deleted ones that the search has just passed. -/
theorem exists_room_of_run {count total start : Nat} (run : List Bytes)
    (hrun : ∀ s ∈ run, s.length = slotSize ∧ s.getD 0 0 = deletedMark)
    (hshort : run.length < count) (h : Arrangement (k + run.length) slots rs)
    (htotal : total = k + run.length + slots.length)
    (hfind : freeRunFrom count total run.length (k + run.length) slots = some start) :
    ∃ pre mid post before after, run ++ slots = pre ++ mid ++ post ∧ start = k + pre.length ∧
      mid.length = count ∧ rs = before ++ after ∧
      ∀ r : Record, r.WellFormed → r.slots.length = count →
        Arrangement k (pre ++ r.slots ++ post) (before ++ (start, r) :: after) := by
  generalize hk : k + run.length = number at h
  induction h generalizing k run with
  | blank number blank =>
    cases blank with
    | zero => simp [freeRunFrom] at hfind
    | succ blank =>
      have hzero : zeroSlot.getD 0 0 = 0 := rfl
      simp only [List.replicate_succ, freeRunFrom, hzero, if_true] at hfind
      rw [List.length_replicate] at htotal
      split at hfind
      case isFalse => simp at hfind
      rename_i hroom
      obtain rfl : k = start := by
        simp only [Option.some.injEq] at hfind
        omega
      refine ⟨[], run ++ List.replicate (count - run.length) zeroSlot,
        List.replicate (run.length + (blank + 1) - count) zeroSlot, [], [], ?_, rfl, ?_, rfl,
        fun r hr _ => .record hr (.blank _ _)⟩
      · rw [List.nil_append, List.append_assoc, List.replicate_append_replicate]
        congr 2
        omega
      · rw [List.length_append, List.length_replicate]
        omega
  | @deleted number s slots rs hlen hmark rest ih =>
    simp only [freeRunFrom, hmark] at hfind
    rw [if_neg (by decide), if_pos trivial] at hfind
    split at hfind
    · rename_i hroom
      obtain rfl : k = start := by
        simp only [Option.some.injEq] at hfind
        omega
      refine ⟨[], run ++ [s], slots, [], rs, by simp, rfl, ?_, rfl, ?_⟩
      · rw [List.length_append, List.length_singleton]
        omega
      · intro r hr hrlen
        refine .record hr ?_
        rwa [hrlen, show k + count = number + 1 by omega]
    · obtain ⟨pre, mid, post, before, after, heq, hstart, hmid, hrs, hput⟩ :=
        ih (k := k) (run ++ [s])
          (by
            intro t ht
            rcases List.mem_append.1 ht with ht | ht
            · exact hrun t ht
            · rw [List.mem_singleton.1 ht]
              exact ⟨hlen, hmark⟩)
          (by rw [List.length_append, List.length_singleton]; omega)
          (by rw [htotal, List.length_append, List.length_singleton, List.length_cons]; omega)
          (by rw [List.length_append, List.length_singleton, ← hfind]; congr 1)
          (by rw [List.length_append, List.length_singleton]; omega)
      refine ⟨pre, mid, post, before, after, ?_, hstart, hmid, hrs, hput⟩
      rw [← heq, List.append_assoc, List.singleton_append]
  | @record number r slots rs hr rest ih =>
    rw [freeRunFrom_used count total (List.ne_nil_of_length_pos r.length_slots_pos)
      fun s hs => (hr.of_mem_slots hs).2] at hfind
    obtain ⟨pre, mid, post, before, after, heq, hstart, hmid, hrs, hput⟩ :=
      ih (k := number + r.slots.length) [] (by simp) (by simp; omega)
        (by rw [htotal, List.length_append, List.length_nil]; omega)
        (by rw [← hfind, ← hk]; rfl) (by simp)
    rw [List.nil_append] at heq
    refine ⟨run ++ (r.slots ++ pre), mid, post, (number, r) :: before, after, ?_, ?_, hmid, ?_,
      fun r' hr' hlen => ?_⟩
    · rw [heq]
      simp only [List.append_assoc]
    · rw [hstart, List.length_append, List.length_append]
      omega
    · rw [hrs, List.cons_append]
    · have hbehind := Arrangement.record hr (hput r' hr' hlen)
      rw [← hk] at hbehind
      have := append_deleted hrun hbehind
      simpa only [hk, List.append_assoc, List.cons_append] using this

end Arrangement

/-! ### Writing slots -/

/-- Slots with given bytes written over the beginnings of some of them, from `number` on. -/
def writeFrom (slots : List Bytes) : (number : Nat) → List Bytes → List Bytes
  | _, [] => slots
  | number, bs :: rest => writeFrom (writeAt slots number bs) (number + 1) rest

theorem writeFrom_append (pre post : List Bytes) {mid written : List Bytes}
    (hlen : written.length = mid.length) : writeFrom (pre ++ mid ++ post) pre.length written =
      pre ++ List.zipWith (fun bs s => Bytes.overlay s 0 bs) written mid ++ post := by
  induction written generalizing pre mid with
  | nil =>
    obtain rfl : mid = [] := List.eq_nil_of_length_eq_zero hlen.symm
    rfl
  | cons bs written ih =>
    obtain ⟨s, mid, rfl⟩ := List.exists_cons_of_length_eq_add_one hlen.symm
    have hstep : writeAt (pre ++ s :: mid ++ post) pre.length bs =
        (pre ++ [s.overlay 0 bs]) ++ mid ++ post := by
      have := writeAt_append_right pre (s :: mid ++ post) 0 bs
      rw [Nat.add_zero] at this
      rw [List.append_assoc, this, writeAt]
      simp
    have hlen' : written.length = mid.length := by simpa using hlen
    have hnext := ih (pre ++ [s.overlay 0 bs]) hlen'
    rw [List.length_append, List.length_singleton] at hnext
    rw [writeFrom, hstep, hnext]
    simp

/-- Whole slots take the place of those they are written over. -/
theorem writeFrom_append_of_whole (pre post : List Bytes) {mid written : List Bytes}
    (hlen : written.length = mid.length) (hmid : ∀ s ∈ mid, s.length = slotSize)
    (hwritten : ∀ s ∈ written, s.length = slotSize) :
    writeFrom (pre ++ mid ++ post) pre.length written = pre ++ written ++ post := by
  rw [writeFrom_append _ _ hlen]
  congr 2
  induction written generalizing mid with
  | nil => rfl
  | cons bs written ih =>
    obtain ⟨s, mid, rfl⟩ := List.exists_cons_of_length_eq_add_one hlen.symm
    rw [List.forall_mem_cons] at hmid hwritten
    rw [List.zipWith_cons_cons, Bytes.overlay_zero_of_length (hwritten.1.trans hmid.1.symm),
      ih (by simpa using hlen) hmid.2 hwritten.2]

/-- Marked slots are whole and deleted. -/
theorem mem_zipWith_mark {mid : List Bytes} (hmid : ∀ s ∈ mid, s.length = slotSize) {n : Nat} :
    ∀ s ∈ List.zipWith (fun bs s => Bytes.overlay s 0 bs) (List.replicate n [deletedMark]) mid,
      s.length = slotSize ∧ s.getD 0 0 = deletedMark := by
  intro s hs
  obtain ⟨i, hi, rfl⟩ := List.getElem_of_mem hs
  rw [List.length_zipWith, List.length_replicate] at hi
  have hlen := hmid mid[i] (List.getElem_mem _)
  rw [List.getElem_zipWith, List.getElem_replicate]
  constructor
  · rw [Bytes.length_overlay_of_le (by rw [hlen]; decide), hlen]
  · rw [Bytes.getD_overlay]
    exact if_pos ⟨Nat.le_refl 0, Nat.one_pos⟩

/-! ### Folders -/

/-- What a directory holds. -/
structure Folder where
  /-- The first clusters of the directory itself and of its parent, as the first two slots have
  them. The root has no such slots. -/
  dots : Option (Nat × Nat)
  /-- The records, each with the number of its first slot. -/
  records : List (Nat × Record)

namespace Folder

variable {f f' : Folder} {slots : List Bytes} {n : Nat} {r : Record}

/-- The slots that stand for the directory itself and its parent. -/
def head (f : Folder) : List Bytes :=
  match f.dots with
  | none => []
  | some (self, up) =>
    [shortSlot dotName directoryAttribute self 0 0, shortSlot dotDotName directoryAttribute up 0 0]

/-- The entries of the records. -/
def entries (f : Folder) : List DirEntry :=
  f.records.map fun x => x.2.entry x.1

/-- The short names of the records. -/
def shorts (f : Folder) : List Bytes :=
  f.records.map fun x => x.2.spelling.short

theorem map_short_entries (f : Folder) : f.entries.map (·.short) = f.shorts := by
  simp [entries, shorts, Function.comp_def, Record.entry]

/-- The short names that stand in the slots. -/
def taken (f : Folder) (short : Bytes) : Bool :=
  (f.dots.isSome && (short == dotName || short == dotDotName)) || f.shorts.contains short

/-- The slots hold the folder, and no short name stands in them twice. -/
structure Stands (f : Folder) (slots : List Bytes) : Prop where
  dots : ∀ self up, f.dots = some (self, up) → self < 0x100000000 ∧ up < 0x100000000
  arranged : ∃ rest, slots = f.head ++ rest ∧ Arrangement f.head.length rest f.records
  nodup : f.shorts.Nodup

/-- `f'` has a record more than `f`, which starts at slot `n`. -/
def Adds (f : Folder) (n : Nat) (r : Record) (f' : Folder) : Prop :=
  f'.dots = f.dots ∧ ∃ before after, f.records = before ++ after ∧
    f'.records = before ++ (n, r) :: after

theorem Adds.mem_iff (h : f.Adds n r f') {x : Nat × Record} :
    x ∈ f'.records ↔ x = (n, r) ∨ x ∈ f.records := by
  obtain ⟨-, before, after, hf, hf'⟩ := h
  rw [hf, hf', List.mem_append, List.mem_append, List.mem_cons]
  tauto

theorem head_mem {s : Bytes} (hs : s ∈ f.head) :
    s.length = slotSize ∧ s.getD 0 0 ≠ 0 ∧ s.getD 0 0 ≠ deletedMark := by
  have hone : dotName.length = 11 := by decide
  have htwo : dotDotName.length = 11 := by decide
  rw [head] at hs
  split at hs
  · simp at hs
  · rcases List.mem_cons.1 hs with rfl | hs
    · rw [length_shortSlot hone, getD_shortSlot_zero hone]
      decide
    · rw [List.mem_singleton.1 hs, length_shortSlot htwo, getD_shortSlot_zero htwo]
      decide

theorem Stands.wellFormed (h : f.Stands slots) (hmem : (n, r) ∈ f.records) : r.WellFormed := by
  obtain ⟨rest, -, harr⟩ := h.arranged
  exact harr.wellFormed hmem

/-- No two records start at one slot. -/
theorem Stands.nodup_numbers (h : f.Stands slots) : (f.records.map Prod.fst).Nodup := by
  obtain ⟨rest, -, harr⟩ := h.arranged
  exact List.pairwise_map.2 (harr.pairwise.imp fun hlt => Nat.ne_of_lt hlt)

/-- A record is determined by the number of its first slot. -/
theorem Stands.eq_of_number (h : f.Stands slots) {r r' : Record} (hr : (n, r) ∈ f.records)
    (hr' : (n, r') ∈ f.records) : r = r' := by
  have := List.inj_on_of_nodup_map h.nodup_numbers hr hr' rfl
  exact (Prod.mk.injEq .. ▸ this).2

/-- The slot of a record that is added is not that of a record that was there. -/
theorem Adds.number_new (h : f.Adds n r f') (hs : f'.Stands slots) (r' : Record) :
    (n, r') ∉ f.records := by
  obtain ⟨-, before, after, hf, hf'⟩ := h
  have hnodup := hs.nodup_numbers
  rw [hf', List.map_append, List.map_cons] at hnodup
  have hnew := (List.nodup_cons.1 (List.nodup_middle.1 hnodup)).1
  rw [← List.map_append, ← hf] at hnew
  exact fun hmem => hnew (List.mem_map.2 ⟨_, hmem, rfl⟩)

/-! ### Reading a folder -/

theorem short_ne_dots (h : r.WellFormed) :
    r.spelling.short ≠ dotName ∧ r.spelling.short ≠ dotDotName := by
  obtain ⟨-, -, hne⟩ := h.spelling.first_range
  have hone : (dotName.getD 0 0).toNat = 0x2E := by decide
  have htwo : (dotDotName.getD 0 0).toNat = 0x2E := by decide
  exact ⟨fun heq => hne (heq ▸ hone), fun heq => hne (heq ▸ htwo)⟩

/-- Reading gives the entries of the records, behind two that stand for the directory itself and its
parent. -/
theorem Stands.parseFrom_eq (h : f.Stands slots) :
    parseFrom .none 0 slots = (match f.dots with
      | none => []
      | some (self, up) => [⟨".", dotName, directoryAttribute, self, 0, [0]⟩,
          ⟨"..", dotDotName, directoryAttribute, up, 0, [1]⟩]) ++ f.entries := by
  obtain ⟨rest, rfl, harr⟩ := h.arranged
  rw [entries]
  cases hdots : f.dots with
  | none =>
    have hhead : f.head = [] := by rw [head, hdots]
    rw [hhead] at harr ⊢
    exact harr.parseFrom_eq
  | some dots =>
    obtain ⟨self, up⟩ := dots
    obtain ⟨hself, hup⟩ := h.dots self up hdots
    have hhead : f.head = [shortSlot dotName directoryAttribute self 0 0,
        shortSlot dotDotName directoryAttribute up 0 0] := by rw [head, hdots]
    rw [hhead] at harr ⊢
    have hrest := harr.parseFrom_eq
    simp only [List.length_cons, List.length_nil, Nat.zero_add, Nat.reduceAdd] at hrest
    simp only [List.cons_append, List.nil_append]
    rw [parseFrom_newDirectory self up hself hup, hrest]

theorem Stands.filter_parseFrom (h : f.Stands slots) :
    (parseFrom .none 0 slots).filter (fun e => !e.isDot) = f.entries := by
  have hrecords : f.entries.filter (fun e => !e.isDot) = f.entries := by
    refine List.filter_eq_self.2 fun e he => ?_
    obtain ⟨⟨n, r⟩, hr, rfl⟩ := List.mem_map.1 he
    obtain ⟨hone, htwo⟩ := short_ne_dots (h.wellFormed hr)
    simp [DirEntry.isDot, Record.entry, hone, htwo]
  rw [h.parseFrom_eq, List.filter_append, hrecords]
  split
  · rfl
  · simp [DirEntry.isDot]

theorem Stands.contains_shortNames (h : f.Stands slots) (short : Bytes) :
    (shortNames (parseFrom .none 0 slots)).contains short = f.taken short := by
  rw [Fat.contains_shortNames, h.parseFrom_eq, List.map_append, map_short_entries,
    taken]
  cases f.dots with
  | none => simp
  | some dots => simp [Bool.or_assoc, beq_eq_decide]

/-! ### Putting in and taking out -/

/-- Where the search finds room, a record of the right size can be put in. -/
theorem Stands.exists_room (h : f.Stands slots) {count start : Nat} (hcount : 0 < count)
    (hfind : freeRunFrom count slots.length 0 0 slots = some start) :
    start + count ≤ slots.length ∧
      ∀ r : Record, r.WellFormed → r.slots.length = count → f.taken r.spelling.short = false →
        ∃ f', f.Adds start r f' ∧ f'.Stands (writeFrom slots start r.slots) := by
  obtain ⟨rest, rfl, harr⟩ := h.arranged
  have hskip : freeRunFrom count (f.head ++ rest).length 0 f.head.length rest = some start := by
    cases hhead : f.head with
    | nil => rwa [hhead] at hfind
    | cons s head =>
      have hne : f.head ≠ [] := by simp [hhead]
      have hused := freeRunFrom_used count (f.head ++ rest).length hne
        (fun s hs => (head_mem hs).2) 0 0 rest
      rw [hfind, Nat.zero_add] at hused
      rw [← hhead, ← hused]
  obtain ⟨pre, mid, post, before, after, hslots, hstart, hmid, hrs, hput⟩ :=
    harr.exists_room_of_run [] (by simp) hcount (by simp) hskip
  rw [List.nil_append] at hslots
  have hmem : ∀ s ∈ mid, s.length = slotSize := fun s hs =>
    harr.length_of_mem s (by simp [hslots, hs])
  refine ⟨?_, fun r hr hlen hnew => ⟨⟨f.dots, before ++ (start, r) :: after⟩, ⟨rfl, before, after,
    hrs, rfl⟩, ?_, ⟨pre ++ r.slots ++ post, ?_, hput r hr hlen⟩, ?_⟩⟩
  · rw [hslots, hstart]
    simp only [List.length_append]
    omega
  · exact h.dots
  · have hwrite := writeFrom_append_of_whole (f.head ++ pre) post
      (hlen.trans hmid.symm) hmem fun s hs => (hr.of_mem_slots hs).1
    have hhead : Folder.head ⟨f.dots, before ++ (start, r) :: after⟩ = f.head := rfl
    rw [hhead, hslots, hstart, ← List.length_append]
    simpa only [List.append_assoc] using hwrite
  · rw [taken, Bool.or_eq_false_iff] at hnew
    have hnodup := h.nodup
    rw [shorts, hrs] at hnodup
    have hfresh : r.spelling.short ∉ (before ++ after).map fun x => x.2.spelling.short := by
      rw [← hrs]
      simpa [shorts] using hnew.2
    simp only [shorts, List.map_append, List.map_cons] at hnodup hfresh ⊢
    exact List.nodup_middle.2 (List.nodup_cons.2 ⟨hfresh, hnodup⟩)

/-- A record can be taken out, by marking its slots as deleted. -/
theorem Stands.strike (h : f'.Stands slots) (hmem : (n, r) ∈ f'.records) :
    n + r.slots.length ≤ slots.length ∧ ∃ f : Folder, f.Adds n r f' ∧
      f.Stands (writeFrom slots n (List.replicate r.slots.length [deletedMark])) := by
  obtain ⟨rest, rfl, harr⟩ := h.arranged
  obtain ⟨pre, post, before, after, rfl, hn, hrs, hcut⟩ := harr.exists_split hmem
  have hr := h.wellFormed hmem
  refine ⟨?_, ⟨f'.dots, before ++ after⟩, ⟨rfl, before, after, rfl, hrs⟩, h.dots, ?_, ?_⟩
  · simp only [List.length_append]
    omega
  · have hcount : (List.replicate r.slots.length [deletedMark]).length = r.slots.length :=
      List.length_replicate
    have hwrite := writeFrom_append (f'.head ++ pre) post hcount
    have hmark := mem_zipWith_mark (n := r.slots.length) fun s hs => (hr.of_mem_slots hs).1
    have hlen : (List.zipWith (fun bs s => Bytes.overlay s 0 bs)
        (List.replicate r.slots.length [deletedMark]) r.slots).length = r.slots.length := by
      rw [List.length_zipWith, List.length_replicate, Nat.min_self]
    refine ⟨_, ?_, hcut _ hlen hmark⟩
    have hhead : Folder.head ⟨f'.dots, before ++ after⟩ = f'.head := rfl
    rw [hhead, hn, ← List.length_append]
    simpa only [List.append_assoc] using hwrite
  · have hnodup := h.nodup
    simp only [shorts, hrs, List.map_append, List.map_cons] at hnodup ⊢
    exact (List.nodup_cons.1 (List.nodup_middle.1 hnodup)).2

/-- A directory stays what it is when blank slots are added to it. -/
theorem Stands.append_zeros (h : f.Stands slots) (count : Nat) :
    f.Stands (slots ++ List.replicate count zeroSlot) := by
  obtain ⟨rest, rfl, harr⟩ := h.arranged
  exact ⟨h.dots, ⟨_, List.append_assoc .., harr.append_zeros count⟩, h.nodup⟩

end Folder

end BootImage.Fat
