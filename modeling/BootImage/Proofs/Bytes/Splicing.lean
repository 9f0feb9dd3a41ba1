import BootImage.Bytes.Content
import Mathlib.Data.List.GetD

/-!
# Ranges of a content

The bytes of a range are a part of all the bytes. Bytes that take the place of a range are put
between what is before it and what is behind it; if they are as many as those of the range, nothing
moves, and it is the same to write them over the range.

## Main results

* `Content.read_eq_slice`: the bytes of a range.
* `Content.splice_eq_write`: as many bytes as the range has, in its place.
-/

namespace BootImage.Content

@[simp] theorem length_toBytes (c : Content) : c.toBytes.length = c.size := by
  simp [toBytes]

theorem getElem_toBytes (c : Content) {i : Nat} (hi : i < c.toBytes.length) :
    c.toBytes[i] = c.get i := by
  simp [toBytes, read_eq]

/-- The bytes of a range are a part of all the bytes. -/
theorem read_eq_slice (c : Content) (start len : Nat) :
    c.read start len = c.toBytes.slice start len := by
  refine List.ext_getElem (by simp [Bytes.slice]) fun i h1 h2 => ?_
  simp [Bytes.slice, read_eq, getElem_toBytes]

theorem read_ofBytes (bs : Bytes) (start len : Nat) :
    (ofBytes bs).read start len = bs.slice start len := by
  rw [read_eq_slice, toBytes_ofBytes]

/-- As many bytes in place of a range are written over it. -/
theorem splice_eq_write {c : Content} {start len : Nat} {bs : Bytes} (h : start + len ≤ c.size)
    (hlen : bs.length = len) : c.splice start len bs = c.write start bs :=
  if_pos ⟨h, hlen⟩

end BootImage.Content
