import BootImage.Bytes.Basic
import Std.Data.TreeMap

/-!
# File contents

The content of a file is a size and the bytes below it. A disk image is large and nearly all zero,
so bytes are kept in blocks of 512, and a block that was never written is zero. What a content *is*
is told by `Content.get`, the byte at a position, and by its size; every operation has one lemma
that says what it does to these.

## Main definitions

* `Content`: the content of a file.
* `Content.get`: the byte at a position, zero past the end.
* `Content.zeros`, `Content.ofBytes`: new contents.
* `Content.append`: more bytes at the end.
* `Content.read`: the bytes of a range, as far as the content goes.
* `Content.write`: bytes written at a position; the content grows when they reach past its end.
* `Content.splice`: bytes in place of those of a range.
* `Content.clear`: zeros written over a range.

## Main results

* `Content.get_write`, `Content.get_clear`: what reading finds after a change.
* `Content.get_ofBytes`: a content made of bytes holds these bytes.
* `Content.read_eq`: a range read is its bytes one by one.
-/

namespace BootImage

/-- The bytes in one block of a content. -/
def blockSize : Nat := 512

/-- Blocks by their number; a block may end early, and a missing one is zero. -/
abbrev Blocks := Std.TreeMap Nat Bytes

namespace Blocks

/-- The byte at a position. -/
def byteAt (blocks : Blocks) (i : Nat) : UInt8 :=
  (blocks.getD (i / blockSize) []).getD (i % blockSize) 0

/-- The blocks with `bs` written from position `start` on. -/
def write (blocks : Blocks) (start : Nat) (bs : Bytes) : Blocks :=
  if _ : bs = [] then blocks
  else
    write
      (blocks.insert (start / blockSize)
        (Bytes.overlay (blocks.getD (start / blockSize) []) (start % blockSize)
          (bs.take (blockSize - start % blockSize))))
      (start + (blockSize - start % blockSize)) (bs.drop (blockSize - start % blockSize))
termination_by bs.length
decreasing_by
  have : 0 < bs.length := List.length_pos_iff.2 ‹_›
  have : start % blockSize < blockSize := Nat.mod_lt _ (by decide)
  simp; omega

/-- One block, of the given number, with the positions `start ≤ i < stop` set to zero. -/
def clearBlock (start stop number : Nat) (block : Bytes) : Bytes :=
  let first := max start (number * blockSize)
  let last := min stop ((number + 1) * blockSize)
  if first < last then
    block.overlay (first - number * blockSize) (Bytes.zeros (last - first))
  else block

/-- The blocks with the positions `start ≤ i < stop` set to zero. -/
def clear (blocks : Blocks) (start stop : Nat) : Blocks :=
  blocks.map (clearBlock start stop)

/-- The `len` bytes from `start` on. -/
def read (blocks : Blocks) (start len : Nat) : Bytes :=
  if _ : len = 0 then []
  else
    Bytes.resize ((blocks.getD (start / blockSize) []).drop (start % blockSize))
        (min len (blockSize - start % blockSize)) ++
      read blocks (start + min len (blockSize - start % blockSize))
        (len - min len (blockSize - start % blockSize))
termination_by len
decreasing_by
  have : start % blockSize < blockSize := Nat.mod_lt _ (by decide)
  omega

@[simp] theorem byteAt_empty (i : Nat) : byteAt ∅ i = 0 := by
  simp [byteAt]

theorem byteAt_insert (blocks : Blocks) (number : Nat) (block : Bytes) (i : Nat) :
    byteAt (blocks.insert number block) i =
      if i / blockSize = number then block.getD (i % blockSize) 0 else blocks.byteAt i := by
  simp only [byteAt, Std.TreeMap.getD_insert, Nat.compare_eq_eq]
  by_cases h : number = i / blockSize
  · simp [h]
  · rw [if_neg h, if_neg (fun e => h e.symm)]

/-- After a write the new bytes stand from its start on, and the old ones elsewhere. -/
theorem byteAt_write (blocks : Blocks) (start : Nat) (bs : Bytes) (i : Nat) :
    (blocks.write start bs).byteAt i =
      if start ≤ i ∧ i < start + bs.length then bs.getD (i - start) 0 else blocks.byteAt i := by
  fun_induction write blocks start bs with
  | case1 blocks start => rw [if_neg (by rw [List.length_nil]; omega)]
  | case2 blocks start bs h ih =>
    have hlen : 0 < bs.length := List.length_pos_iff.2 h
    have hmod : start % blockSize < blockSize := Nat.mod_lt _ (by decide)
    have hdiv := Nat.div_add_mod start blockSize
    have hi := Nat.div_add_mod i blockSize
    have himod : i % blockSize < blockSize := Nat.mod_lt _ (by decide)
    rw [ih, byteAt_insert, Bytes.getD_overlay]
    simp only [List.length_drop, List.length_take, List.getD_eq_getElem?_getD, List.getElem?_drop,
      List.getElem?_take]
    by_cases hin : i / blockSize = start / blockSize
    · have hrel : i - start = i % blockSize - start % blockSize ∧
          (start ≤ i ↔ start % blockSize ≤ i % blockSize) ∧
          i < start + (blockSize - start % blockSize) := by
        rw [hin] at hi; omega
      rw [if_pos hin, if_neg (by omega)]
      by_cases hs : start ≤ i ∧ i < start + bs.length
      · rw [if_pos (by rw [hin] at hi; omega), if_pos hs, if_pos (by omega), hrel.1]
      · rw [if_neg (by rw [hin] at hi; omega), if_neg hs, byteAt, hin,
          List.getD_eq_getElem?_getD]
    · rw [if_neg hin]
      by_cases hs : start ≤ i ∧ i < start + bs.length
      · have hge : start + (blockSize - start % blockSize) ≤ i := by
          have : start / blockSize < i / blockSize :=
            Nat.lt_of_le_of_ne (Nat.div_le_div_right hs.1) (fun e => hin e.symm)
          have : blockSize * (start / blockSize + 1) ≤ blockSize * (i / blockSize) :=
            Nat.mul_le_mul_left _ this
          rw [Nat.mul_add, Nat.mul_one] at this
          omega
        rw [if_pos (by omega), if_pos hs,
          show blockSize - start % blockSize + (i - (start + (blockSize - start % blockSize))) =
            i - start by omega]
      · rw [if_neg (by omega), if_neg hs]

theorem byteAt_clear (blocks : Blocks) (start stop i : Nat) :
    (blocks.clear start stop).byteAt i =
      if start ≤ i ∧ i < stop then 0 else blocks.byteAt i := by
  have hi := Nat.div_add_mod i blockSize
  have himod : i % blockSize < blockSize := Nat.mod_lt _ (by decide)
  have hget : (blocks.clear start stop).getD (i / blockSize) [] =
      ((blocks[i / blockSize]?).map (clearBlock start stop (i / blockSize))).getD [] := by
    rw [Std.TreeMap.getD_eq_getD_getElem?, clear, Std.TreeMap.getElem?_map]
  rw [byteAt, hget, byteAt, Std.TreeMap.getD_eq_getD_getElem?]
  cases blocks[i / blockSize]? with
  | none => simp
  | some block =>
    rw [Option.map_some, Option.getD_some, Option.getD_some]
    have hmul : i / blockSize * blockSize = blockSize * (i / blockSize) := Nat.mul_comm _ _
    have hmul' : (i / blockSize + 1) * blockSize = blockSize * (i / blockSize) + blockSize := by
      rw [Nat.add_mul, Nat.mul_comm, Nat.one_mul]
    simp only [clearBlock]
    split
    · rw [Bytes.getD_overlay, Bytes.length_zeros, Bytes.getD_zeros]
      by_cases hs : start ≤ i ∧ i < stop
      · rw [if_pos (by omega), if_pos hs]
      · rw [if_neg (by omega), if_neg hs]
    · rw [if_neg (by omega)]

theorem read_eq (blocks : Blocks) (start len : Nat) :
    blocks.read start len = (List.range len).map fun i => blocks.byteAt (start + i) := by
  fun_induction read blocks start len with
  | case1 start => rfl
  | case2 start len h ih =>
    have hmod : start % blockSize < blockSize := Nat.mod_lt _ (by decide)
    rw [ih]
    generalize hn : min len (blockSize - start % blockSize) = n
    have hsplit : List.range len = List.range n ++ (List.range (len - n)).map (n + ·) := by
      rw [← List.range_add, Nat.add_sub_cancel' (by omega)]
    rw [hsplit, List.map_append, List.map_map]
    congr 1
    · rw [Bytes.resize_eq]
      apply List.map_congr_left
      intro j hj
      have hj : start % blockSize + j < blockSize := by have := List.mem_range.1 hj; omega
      have hstart := Nat.div_add_mod start blockSize
      have hdiv : (start + j) / blockSize = start / blockSize := by
        rw [← hstart, Nat.add_assoc, Nat.mul_add_div (by decide), Nat.div_eq_of_lt hj]
        simp [hstart]
      have hmod : (start + j) % blockSize = start % blockSize + j := by
        rw [Nat.add_mod, Nat.mod_eq_of_lt (a := j) (by omega), Nat.mod_eq_of_lt hj]
      simp [byteAt, hdiv, hmod]
    · apply List.map_congr_left
      intro j _
      simp [Nat.add_assoc]

theorem length_read (blocks : Blocks) (start len : Nat) :
    (blocks.read start len).length = len := by
  simp [read_eq]

end Blocks

/-- The content of a file: its size and its blocks. No byte past the end is other than zero, so that
growing a content adds zeros. -/
structure Content where
  size : Nat
  blocks : Blocks
  zero_past_end : ∀ i, size ≤ i → blocks.byteAt i = 0

namespace Content

/-- The byte at a position; zero past the end. -/
def get (c : Content) (i : Nat) : UInt8 :=
  c.blocks.byteAt i

/-- The content of so many zero bytes. -/
def zeros (size : Nat) : Content where
  size := size
  blocks := ∅
  zero_past_end _ _ := Blocks.byteAt_empty _

/-- The content without bytes. -/
def empty : Content :=
  zeros 0

instance : Inhabited Content := ⟨empty⟩

/-- The content with `bs` written from position `start` on. It grows if they reach past its end; to
write nothing changes nothing. -/
def write (c : Content) (start : Nat) (bs : Bytes) : Content where
  size := if bs = [] then c.size else max c.size (start + bs.length)
  blocks := c.blocks.write start bs
  zero_past_end i hi := by
    rw [Blocks.byteAt_write]
    split at hi
    · subst bs; rw [if_neg (by simp), c.zero_past_end i hi]
    · rw [if_neg (by omega), c.zero_past_end i (by omega)]

/-- The content with zeros written over the `len` positions from `start` on. -/
def clear (c : Content) (start len : Nat) : Content where
  size := if len = 0 then c.size else max c.size (start + len)
  blocks := c.blocks.clear start (start + len)
  zero_past_end i hi := by
    rw [Blocks.byteAt_clear]
    split at hi
    · rw [if_neg (by omega), c.zero_past_end i hi]
    · rw [if_neg (by omega), c.zero_past_end i (by omega)]

/-- The content that consists of the given bytes. -/
def ofBytes (bs : Bytes) : Content :=
  empty.write 0 bs

/-- The content with more bytes at its end. -/
def append (c : Content) (bs : Bytes) : Content :=
  c.write c.size bs

/-- The bytes from `start` on, at most `len` of them and none past the end. -/
def read (c : Content) (start len : Nat) : Bytes :=
  c.blocks.read start (min len (c.size - start))

/-- All the bytes. -/
def toBytes (c : Content) : Bytes :=
  c.read 0 c.size

/-- The content with `bs` in place of the `len` bytes from `start` on, as far as it has them. What
follows moves if these are more or fewer bytes; if they are as many, they are written over. -/
def splice (c : Content) (start len : Nat) (bs : Bytes) : Content :=
  if start + len ≤ c.size ∧ bs.length = len then c.write start bs
  else ofBytes (c.read 0 start ++ bs ++ c.read (start + len) c.size)

@[simp] theorem size_zeros (n : Nat) : (zeros n).size = n := rfl

@[simp] theorem get_zeros (n i : Nat) : (zeros n).get i = 0 := Blocks.byteAt_empty i

theorem get_of_size_le (c : Content) {i : Nat} (h : c.size ≤ i) : c.get i = 0 :=
  c.zero_past_end i h

/-- The byte found after a write. -/
theorem get_write (c : Content) (start : Nat) (bs : Bytes) (i : Nat) :
    (c.write start bs).get i =
      if start ≤ i ∧ i < start + bs.length then bs.getD (i - start) 0 else c.get i :=
  Blocks.byteAt_write _ _ _ _

/-- The byte found after a range was set to zero. -/
theorem get_clear (c : Content) (start len i : Nat) :
    (c.clear start len).get i = if start ≤ i ∧ i < start + len then 0 else c.get i :=
  Blocks.byteAt_clear _ _ _ _

/-- A write inside a content keeps its size. -/
theorem size_write_of_le (c : Content) {start : Nat} {bs : Bytes}
    (h : start + bs.length ≤ c.size) : (c.write start bs).size = c.size := by
  simp only [write]; split
  · rfl
  · omega

theorem size_clear_of_le (c : Content) {start len : Nat} (h : start + len ≤ c.size) :
    (c.clear start len).size = c.size := by
  simp only [clear]; split
  · rfl
  · omega

@[simp] theorem size_ofBytes (bs : Bytes) : (ofBytes bs).size = bs.length := by
  simp only [ofBytes, write, empty, zeros]
  split
  · simp_all
  · omega

theorem get_ofBytes (bs : Bytes) (i : Nat) : (ofBytes bs).get i = bs.getD i 0 := by
  rw [ofBytes, get_write]
  split
  · rw [Nat.sub_zero]
  · rw [empty, get_zeros, List.getD_eq_getElem?_getD, List.getElem?_eq_none (by omega)]
    rfl

/-- The bytes of a range, one by one. -/
theorem read_eq (c : Content) (start len : Nat) :
    c.read start len = (List.range (min len (c.size - start))).map fun i => c.get (start + i) :=
  Blocks.read_eq _ _ _

@[simp] theorem length_read (c : Content) (start len : Nat) :
    (c.read start len).length = min len (c.size - start) :=
  Blocks.length_read _ _ _

theorem getD_read (c : Content) (start len i : Nat) (h : i < len) :
    (c.read start len).getD i 0 = c.get (start + i) := by
  rw [read_eq, List.getD_eq_getElem?_getD, List.getElem?_map]
  by_cases hi : i < min len (c.size - start)
  · rw [List.getElem?_range hi]
    rfl
  · rw [List.getElem?_eq_none (by simp; omega), c.get_of_size_le (by omega)]
    rfl

theorem toBytes_ofBytes (bs : Bytes) : (ofBytes bs).toBytes = bs := by
  rw [toBytes, read_eq, size_ofBytes]
  apply List.ext_getElem (by simp)
  intro i h1 h2
  simp [get_ofBytes, h2]

end Content

end BootImage
