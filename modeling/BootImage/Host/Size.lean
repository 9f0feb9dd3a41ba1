/-!
# Sizes for people

How the size of a file is shown: in whole kilobytes, or from a megabyte on in megabytes with one
decimal.

## Main definitions

* `sizeText`: the size as it is shown.
* `sectorCount`: the sectors of 512 bytes that it fills.

## Main results

* `le_sectorCount_mul`, `sectorCount_mul_lt`: the sectors hold the size, and one less would not.
-/

namespace BootImage.Host

/-- A megabyte. -/
def megabyte : Nat := 1024 * 1024

/-- The nearest whole number to a quotient; of two that are as near, the even one. -/
def roundHalfEven (n d : Nat) : Nat :=
  let q := n / d
  if d < 2 * (n % d) ∨ (2 * (n % d) = d ∧ q % 2 = 1) then q + 1 else q

/-- A size in kilobytes, rounded down, or in megabytes to one decimal. -/
def sizeText (size : Nat) : String :=
  if size < megabyte then s!"{size / 1024} KB"
  else
    let tenths := roundHalfEven (size * 10) megabyte
    s!"{tenths / 10}.{tenths % 10} MB"

/-- The count of sectors that a size fills, the last one perhaps in part. -/
def sectorCount (size : Nat) : Nat :=
  (size + 511) / 512

theorem le_sectorCount_mul (size : Nat) : size ≤ sectorCount size * 512 := by
  unfold sectorCount; omega

theorem sectorCount_mul_lt (size : Nat) : sectorCount size * 512 < size + 512 := by
  unfold sectorCount; omega

end BootImage.Host
