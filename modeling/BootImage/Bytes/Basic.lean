/-!
# Byte strings

A byte string is a list of bytes. Numbers stand in it with their lowest byte first. Laying one byte
string over another writes its bytes from a position on, with zeros between the old end and that
position.

## Main definitions

* `Bytes.ofNat`, `Bytes.toNat`: a number as a given count of bytes, and back.
* `Bytes.resize`: a byte string cut or filled with zeros to a length.
* `Bytes.slice`: the bytes from a position on, at most so many.
* `Bytes.overlay`: a byte string with another one written over it.
* `Bytes.maxSize`, `Bytes.maxHeld`: how many bytes there can be.

## Main results

* `Bytes.toNat_ofNat`: reading back gives the number, up to the width.
* `Bytes.resize_eq`: a byte string cut or filled to a length, byte by byte.
* `Bytes.pieces_append`: pieces are cut off at the front.
* `Bytes.getD_overlay`: inside the part written stand the new bytes, elsewhere the old ones.
-/

namespace BootImage

/-- A byte string. -/
abbrev Bytes := List UInt8

namespace Bytes

/-- The largest number that tells a size. -/
def maxSize : Nat := 0x7FFFFFFFFFFFFFFF

/-- The most bytes that are held in memory at once. -/
def maxHeld : Nat := 0x7FFFFFFFF

/-- So many zero bytes. -/
def zeros (n : Nat) : Bytes :=
  List.replicate n 0

/-- The lowest `width` bytes of a number, lowest first. -/
def ofNat : (width n : Nat) → Bytes
  | 0, _ => []
  | width + 1, n => UInt8.ofNat n :: ofNat width (n / 256)

/-- The number that bytes spell, lowest first. -/
def toNat : Bytes → Nat
  | [] => 0
  | b :: bs => b.toNat + 256 * toNat bs

/-- The bytes from `start` on, at most `len` of them. -/
def slice (bs : Bytes) (start len : Nat) : Bytes :=
  (bs.drop start).take len

/-- The byte string with `new` written over it from `start` on. -/
def overlay (bs : Bytes) (start : Nat) (new : Bytes) : Bytes :=
  bs.take start ++ zeros (start - bs.length) ++ new ++ bs.drop (start + new.length)

/-- The byte string cut or filled with zeros to a length. -/
def resize (bs : Bytes) (n : Nat) : Bytes :=
  bs.take n ++ zeros (n - bs.length)

/-- The byte string cut into pieces of `n + 1` bytes; bytes that fill no piece are left out. -/
def pieces (n : Nat) (bs : Bytes) : List Bytes :=
  if h : (bs.take (n + 1)).length = n + 1 then bs.take (n + 1) :: pieces n (bs.drop (n + 1)) else []
termination_by bs.length
decreasing_by simp at h; simp; omega

@[simp] theorem length_zeros (n : Nat) : (zeros n).length = n := by
  simp [zeros]

@[simp] theorem getD_zeros (n i : Nat) : (zeros n).getD i 0 = 0 := by
  simp only [zeros, List.getD_eq_getElem?_getD, List.getElem?_replicate]
  split <;> rfl

@[simp] theorem length_ofNat (width n : Nat) : (ofNat width n).length = width := by
  induction width generalizing n with
  | zero => rfl
  | succ width ih => simp [ofNat, ih]

theorem toNat_ofNat (width n : Nat) : toNat (ofNat width n) = n % Nat.pow 256 width := by
  induction width generalizing n with
  | zero => simp [ofNat, toNat, Nat.mod_one]
  | succ width ih =>
    have hb : (UInt8.ofNat n).toNat = n % 256 := by simp
    have hpow : Nat.pow 256 (width + 1) = 256 * Nat.pow 256 width := Nat.pow_succ'
    rw [ofNat, toNat, ih, hb, hpow, Nat.mod_mul]

theorem toNat_lt (bs : Bytes) : toNat bs < Nat.pow 256 bs.length := by
  induction bs with
  | nil => exact Nat.one_pos
  | cons b bs ih =>
    have hb := b.toNat_lt_size
    have hpow : Nat.pow 256 (bs.length + 1) = 256 * Nat.pow 256 bs.length := Nat.pow_succ'
    rw [toNat, List.length_cons, hpow]
    simp only [UInt8.size] at hb
    omega

@[simp] theorem length_resize (bs : Bytes) (n : Nat) : (bs.resize n).length = n := by
  simp [resize]; omega

theorem getD_resize (bs : Bytes) (n i : Nat) :
    (bs.resize n).getD i 0 = if i < n then bs.getD i 0 else 0 := by
  simp only [resize, zeros, List.getD_eq_getElem?_getD, List.getElem?_append, List.getElem?_take,
    List.length_take, List.getElem?_replicate]
  by_cases h1 : i < n
  · by_cases h2 : i < bs.length
    · rw [if_pos (by omega), if_pos h1, if_pos h1]
    · rw [if_neg (by omega), if_pos (by omega), if_pos h1, List.getElem?_eq_none (by omega)]
      rfl
  · rw [if_neg (by omega), if_neg (by omega), if_neg h1]
    rfl

/-- A resized byte string, byte by byte. -/
theorem resize_eq (bs : Bytes) (n : Nat) :
    bs.resize n = (List.range n).map fun i => bs.getD i 0 := by
  apply List.ext_getElem (by simp)
  intro i h1 h2
  have h : i < n := by simpa using h2
  have := getD_resize bs n i
  rw [if_pos h, List.getD_eq_getElem?_getD, List.getElem?_eq_getElem h1, Option.getD_some] at this
  simp [this]

theorem length_overlay (bs : Bytes) (start : Nat) (new : Bytes) :
    (bs.overlay start new).length = max bs.length (start + new.length) := by
  simp [overlay]; omega

theorem pieces_of_length_le {n : Nat} {bs : Bytes} (h : bs.length ≤ n) : pieces n bs = [] := by
  rw [pieces, dif_neg]
  rw [List.length_take]
  omega

/-- The first piece is the first `n + 1` bytes. -/
theorem pieces_append {n : Nat} {piece : Bytes} (h : piece.length = n + 1) (bs : Bytes) :
    pieces n (piece ++ bs) = piece :: pieces n bs := by
  have htake : (piece ++ bs).take (n + 1) = piece := by rw [← h, List.take_left]
  have hdrop : (piece ++ bs).drop (n + 1) = bs := by rw [← h, List.drop_left]
  rw [pieces, dif_pos (by rw [htake, h]), htake, hdrop]

/-- Read with zeros past the end, the result has the new bytes where they were written and the old
ones elsewhere. -/
theorem getD_overlay (bs : Bytes) (start : Nat) (new : Bytes) (i : Nat) :
    (bs.overlay start new).getD i 0 =
      if start ≤ i ∧ i < start + new.length then new.getD (i - start) 0 else bs.getD i 0 := by
  have hlen : (bs.take start ++ zeros (start - bs.length)).length = start := by simp; omega
  simp only [overlay, List.getD_eq_getElem?_getD]
  by_cases h1 : i < start
  · rw [List.append_assoc, List.getElem?_append_left (by omega), if_neg (by omega)]
    by_cases h2 : i < bs.length
    · rw [List.getElem?_append_left (by simp; omega), List.getElem?_take, if_pos h1]
    · rw [List.getElem?_append_right (by simp; omega), ← List.getD_eq_getElem?_getD, getD_zeros,
        List.getElem?_eq_none (by omega)]
      rfl
  · by_cases h2 : i < start + new.length
    · rw [if_pos (by omega), List.getElem?_append_left (by rw [List.length_append]; omega),
        List.getElem?_append_right (by omega), hlen]
    · rw [if_neg (by omega), List.getElem?_append_right (by rw [List.length_append]; omega),
        List.length_append, hlen, List.getElem?_drop,
        show start + new.length + (i - (start + new.length)) = i by omega]

end Bytes

end BootImage
