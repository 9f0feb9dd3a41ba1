import BootImage.Fat.Directory
import Mathlib.Data.List.GetD

/-!
# Slots and the bytes that hold them

A directory is read as bytes and written slot by slot. The bytes of a directory are always whole
slots, so the two views determine each other: bytes cut into slots and put together again are the
same bytes. Everything else about directories is then said about lists of slots.

## Main results

* `slotsOf_flatten`, `flatten_slotsOf`: the two views are inverse to each other.
* `slotsOf_append`: whole slots stay apart when bytes are put together.
* `slotsOf_overlay`: a write inside one slot changes that slot alone.
-/

namespace BootImage

namespace Bytes

/-! ### Writing over bytes -/

/-- A byte string is determined by its length and by what is read from it. -/
theorem ext_getD {a b : Bytes} (hlen : a.length = b.length)
    (h : ∀ i < a.length, a.getD i 0 = b.getD i 0) : a = b := by
  refine List.ext_getElem hlen fun i h1 h2 => ?_
  have := h i h1
  rwa [List.getD_eq_getElem?_getD, List.getD_eq_getElem?_getD, List.getElem?_eq_getElem h1,
    List.getElem?_eq_getElem h2] at this

theorem getD_of_length_le {a : Bytes} {i : Nat} (h : a.length ≤ i) : a.getD i 0 = 0 := by
  rw [List.getD_eq_getElem?_getD, List.getElem?_eq_none h]
  rfl

theorem length_overlay_of_le {bs new : Bytes} {start : Nat} (h : start + new.length ≤ bs.length) :
    (bs.overlay start new).length = bs.length := by
  rw [length_overlay]
  omega

/-- Bytes that cover a byte string take its place. -/
theorem overlay_zero_of_length {bs new : Bytes} (h : new.length = bs.length) :
    bs.overlay 0 new = new := by
  refine ext_getD (by rw [length_overlay]; omega) fun i hi => ?_
  rw [length_overlay] at hi
  rw [getD_overlay, if_pos (by omega), Nat.sub_zero]

theorem overlay_append_left {a : Bytes} (b : Bytes) {start : Nat} {new : Bytes}
    (h : start + new.length ≤ a.length) :
    (a ++ b).overlay start new = a.overlay start new ++ b := by
  refine ext_getD ?_ fun i _ => ?_
  · rw [length_overlay, List.length_append, List.length_append, length_overlay]
    omega
  · rw [getD_overlay]
    by_cases hi : i < a.length
    · rw [List.getD_append _ _ _ _ hi, List.getD_append _ _ _ _ (by rw [length_overlay]; omega),
        getD_overlay]
    · rw [if_neg (by omega), List.getD_append_right _ _ _ _ (by omega),
        List.getD_append_right _ _ _ _ (by rw [length_overlay]; omega), length_overlay_of_le h]

theorem overlay_append_right (a b : Bytes) (start : Nat) (new : Bytes) :
    (a ++ b).overlay (a.length + start) new = a ++ b.overlay start new := by
  refine ext_getD ?_ fun i _ => ?_
  · simp only [length_overlay, List.length_append]
    omega
  · rw [getD_overlay]
    by_cases hi : i < a.length
    · rw [if_neg (by omega), List.getD_append _ _ _ _ hi, List.getD_append _ _ _ _ hi]
    · rw [List.getD_append_right _ _ _ _ (by omega), List.getD_append_right _ _ _ _ (by omega),
        getD_overlay, show i - (a.length + start) = i - a.length - start by omega]
      by_cases hs : start ≤ i - a.length ∧ i - a.length < start + new.length
      · rw [if_pos (by omega), if_pos hs]
      · rw [if_neg (by omega), if_neg hs]

/-- A field is written behind what is there already, over zeros. -/
theorem overlay_append_zeros {a new : Bytes} {start room : Nat} (gap rest : Nat)
    (hstart : start = a.length + gap) (hroom : room = gap + new.length + rest) :
    (a ++ zeros room).overlay start new = a ++ zeros gap ++ new ++ zeros rest := by
  have hsplit : zeros room = zeros gap ++ (zeros new.length ++ zeros rest) := by
    simp only [zeros, List.replicate_append_replicate, hroom, Nat.add_assoc]
  have hgap := overlay_append_right (zeros gap) (zeros new.length ++ zeros rest) 0 new
  rw [Nat.add_zero, length_zeros] at hgap
  rw [hstart, overlay_append_right, hsplit, hgap, overlay_append_left _ (by simp),
    overlay_zero_of_length (by simp)]
  simp only [List.append_assoc]

end Bytes

namespace Fat

/-! ### Cutting into slots -/

theorem slotsOf_of_length_lt {data : Bytes} (h : data.length < slotSize) : slotsOf data = [] :=
  Bytes.pieces_of_length_le (Nat.le_pred_of_lt h)

/-- The first slot is the first 32 bytes. -/
theorem slotsOf_append_of_length {slot : Bytes} (rest : Bytes) (h : slot.length = slotSize) :
    slotsOf (slot ++ rest) = slot :: slotsOf rest :=
  Bytes.pieces_append h rest

@[simp] theorem slotsOf_nil : slotsOf [] = [] :=
  slotsOf_of_length_lt (by decide)

theorem slotsOf_flatten {slots : List Bytes} (h : ∀ s ∈ slots, s.length = slotSize) :
    slotsOf slots.flatten = slots := by
  induction slots with
  | nil => exact slotsOf_nil
  | cons s slots ih =>
    rw [List.flatten_cons, slotsOf_append_of_length _ (h s (by simp)),
      ih fun t ht => h t (List.mem_cons_of_mem s ht)]

theorem length_flatten_slots {slots : List Bytes} (h : ∀ s ∈ slots, s.length = slotSize) :
    slots.flatten.length = slotSize * slots.length := by
  induction slots with
  | nil => rfl
  | cons s slots ih =>
    rw [List.flatten_cons, List.length_append, h s (by simp),
      ih fun t ht => h t (List.mem_cons_of_mem s ht), List.length_cons, Nat.mul_succ, Nat.add_comm]

/-- Whole slots are put together from slots. -/
theorem exists_slots {data : Bytes} (h : slotSize ∣ data.length) :
    ∃ slots : List Bytes, data = slots.flatten ∧ ∀ s ∈ slots, s.length = slotSize := by
  obtain ⟨n, hn⟩ := h
  induction n generalizing data with
  | zero =>
    refine ⟨[], List.eq_nil_of_length_eq_zero (by omega), by simp⟩
  | succ n ih =>
    have hle : slotSize ≤ data.length := by
      rw [hn, Nat.mul_succ]
      omega
    obtain ⟨slots, hdata, hlen⟩ := @ih (data.drop slotSize) (by
      rw [List.length_drop, hn, Nat.mul_succ]
      omega)
    refine ⟨data.take slotSize :: slots, ?_, ?_⟩
    · rw [List.flatten_cons, ← hdata, List.take_append_drop]
    · intro s hs
      rcases List.mem_cons.1 hs with rfl | hs
      · rw [List.length_take]
        omega
      · exact hlen s hs

theorem flatten_slotsOf {data : Bytes} (h : slotSize ∣ data.length) :
    (slotsOf data).flatten = data := by
  obtain ⟨slots, rfl, hlen⟩ := exists_slots h
  rw [slotsOf_flatten hlen]

theorem length_slotsOf {data : Bytes} (h : slotSize ∣ data.length) :
    slotSize * (slotsOf data).length = data.length := by
  obtain ⟨slots, rfl, hlen⟩ := exists_slots h
  rw [slotsOf_flatten hlen, length_flatten_slots hlen]

theorem slotsOf_append {a : Bytes} (b : Bytes) (h : slotSize ∣ a.length) :
    slotsOf (a ++ b) = slotsOf a ++ slotsOf b := by
  obtain ⟨slots, rfl, hlen⟩ := exists_slots h
  rw [slotsOf_flatten hlen]
  induction slots with
  | nil => rfl
  | cons s slots ih =>
    have htail : ∀ t ∈ slots, t.length = slotSize := fun t ht => hlen t (List.mem_cons_of_mem s ht)
    rw [List.flatten_cons, List.append_assoc, slotsOf_append_of_length _ (hlen s (by simp)),
      ih htail ⟨_, length_flatten_slots htail⟩, List.cons_append]

theorem slotsOf_flatMap {α : Type} (f : α → Bytes) (xs : List α)
    (h : ∀ x ∈ xs, slotSize ∣ (f x).length) :
    slotsOf (xs.flatMap f) = xs.flatMap fun x => slotsOf (f x) := by
  induction xs with
  | nil => exact slotsOf_nil
  | cons x xs ih =>
    rw [List.flatMap_cons, List.flatMap_cons, slotsOf_append _ (h x (by simp)),
      ih fun y hy => h y (List.mem_cons_of_mem x hy)]

/-- A slot of zeros. -/
def zeroSlot : Bytes :=
  Bytes.zeros slotSize

@[simp] theorem length_zeroSlot : zeroSlot.length = slotSize := by
  simp [zeroSlot]

theorem slotsOf_zeros (n : Nat) :
    slotsOf (Bytes.zeros (slotSize * n)) = List.replicate n zeroSlot := by
  have hflat : Bytes.zeros (slotSize * n) = (List.replicate n zeroSlot).flatten := by
    rw [Bytes.zeros, zeroSlot, Bytes.zeros, List.flatten_replicate_replicate, Nat.mul_comm]
  rw [hflat, slotsOf_flatten]
  intro s hs
  rw [(List.mem_replicate.1 hs).2, length_zeroSlot]

/-! ### Writing into a slot -/

/-- Slots with bytes written over the beginning of one of them. -/
def writeAt (slots : List Bytes) (number : Nat) (bs : Bytes) : List Bytes :=
  slots.modify number fun s => s.overlay 0 bs

@[simp] theorem length_writeAt (slots : List Bytes) (number : Nat) (bs : Bytes) :
    (writeAt slots number bs).length = slots.length := by
  simp [writeAt]

theorem length_of_mem_writeAt {slots : List Bytes} {number : Nat} {bs : Bytes}
    (h : ∀ s ∈ slots, s.length = slotSize) (hbs : bs.length ≤ slotSize) :
    ∀ s ∈ writeAt slots number bs, s.length = slotSize := by
  intro s hs
  obtain ⟨i, hi, rfl⟩ := List.getElem_of_mem hs
  have hi' : i < slots.length := by simpa using hi
  have hlen := h _ (List.getElem_mem hi')
  simp only [writeAt, List.getElem_modify]
  split
  · rw [Bytes.length_overlay_of_le (by omega), hlen]
  · exact hlen

theorem writeAt_append_right (a b : List Bytes) (number : Nat) (bs : Bytes) :
    writeAt (a ++ b) (a.length + number) bs = a ++ writeAt b number bs := by
  induction a with
  | nil => simp
  | cons s a ih =>
    rw [List.cons_append, List.length_cons, Nat.add_right_comm, writeAt, List.modify_succ_cons]
    exact congrArg (s :: ·) ih

theorem writeAt_append_left {a : List Bytes} (b : List Bytes) {number : Nat} (bs : Bytes)
    (h : number < a.length) : writeAt (a ++ b) number bs = writeAt a number bs ++ b := by
  induction a generalizing number with
  | nil => simp at h
  | cons s a ih =>
    cases number with
    | zero => rfl
    | succ number =>
      rw [List.cons_append, writeAt, List.modify_succ_cons, writeAt, List.modify_succ_cons,
        List.cons_append]
      exact congrArg (s :: ·) (ih (by simpa using h))

theorem slotsOf_overlay {data : Bytes} {number : Nat} {bs : Bytes} (h : slotSize ∣ data.length)
    (hn : slotSize * (number + 1) ≤ data.length) (hbs : bs.length ≤ slotSize) :
    slotsOf (data.overlay (number * slotSize) bs) = writeAt (slotsOf data) number bs := by
  obtain ⟨slots, rfl, hlen⟩ := exists_slots h
  rw [slotsOf_flatten hlen]
  rw [length_flatten_slots hlen] at hn
  have hnum : number < slots.length := Nat.lt_of_mul_lt_mul_left (a := slotSize) (by
    rw [Nat.mul_succ] at hn
    have : 0 < slotSize := by decide
    omega)
  rw [← slotsOf_flatten (length_of_mem_writeAt hlen hbs)]
  congr 1
  clear hn h
  induction slots generalizing number with
  | nil => simp at hnum
  | cons s slots ih =>
    have hs : s.length = slotSize := hlen s (by simp)
    cases number with
    | zero =>
      rw [Nat.zero_mul, List.flatten_cons, Bytes.overlay_append_left _ (by omega)]
      rfl
    | succ number =>
      rw [List.flatten_cons, Nat.succ_mul, Nat.add_comm, ← hs, Bytes.overlay_append_right, hs,
        ih (fun t ht => hlen t (List.mem_cons_of_mem s ht)) (by simpa using hnum), writeAt, writeAt,
        List.modify_succ_cons, List.flatten_cons]

end Fat

end BootImage
