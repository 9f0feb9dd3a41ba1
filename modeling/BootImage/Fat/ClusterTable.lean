import BootImage.Bytes.Basic

/-!
# The cluster table

The table has one entry of 32 bits for each cluster: which cluster follows it in its chain, that it
is the last of its chain, or that it is free. Only the lower 28 bits of an entry count.

## Main definitions

* `ClusterTable`: the entries of a table, and bytes too few for one more entry.
* `ClusterTable.link`, `ClusterTable.link?`: what the entry of a cluster says.
* `ClusterTable.set`: the table with one entry changed.
* `ClusterTable.ofBytes`, `ClusterTable.toBytes`: the table as it is stored.

## Main results

* `ClusterTable.link_set_self`, `ClusterTable.link_set_of_ne`: what is read after a change.
-/

namespace BootImage.Fat

/-- A cluster table. A table cut short by the end of an image can have bytes after its last whole
entry; they are kept. -/
structure ClusterTable where
  entries : Array UInt32
  rest : Bytes
  deriving DecidableEq, Repr, Inhabited

namespace ClusterTable

/-- The entry of a free cluster. -/
def free : Nat := 0

/-- The entry of the last cluster of a chain. -/
def endOfChain : Nat := 0x0FFFFFFF

/-- The entry of a cluster, without its upper four bits. Past the end of the table there is zero. -/
def link (t : ClusterTable) (cluster : Nat) : Nat :=
  (t.entries.getD cluster 0).toNat % 0x10000000

/-- The table with the entry of one cluster replaced. -/
def set (t : ClusterTable) (cluster value : Nat) : ClusterTable :=
  { t with entries := t.entries.setIfInBounds cluster (UInt32.ofNat value) }

/-- The table whose entries are `entries` and then those in the given bytes. -/
def decodeFrom (entries : Array UInt32) : Bytes → ClusterTable
  | a :: b :: c :: d :: rest =>
    decodeFrom (entries.push (UInt32.ofNat (Bytes.toNat [a, b, c, d]))) rest
  | rest => { entries, rest }

/-- The table that is stored in the given bytes. -/
def ofBytes (bs : Bytes) : ClusterTable :=
  decodeFrom #[] bs

/-- The bytes of a table. -/
def toBytes (t : ClusterTable) : Bytes :=
  t.entries.toList.flatMap (fun entry => Bytes.ofNat 4 entry.toNat) ++ t.rest

/-- The count of bytes. -/
def size (t : ClusterTable) : Nat :=
  4 * t.entries.size + t.rest.length

/-- What the entry with the given number says, if the table has it. A negative number counts back
from the end of the table. -/
def link? (t : ClusterTable) : Int → Option Nat
  | .ofNat number => if number < t.entries.size then some (t.link number) else none
  | .negSucc number =>
    if 4 * (number + 1) ≤ t.size then
      some ((t.toBytes.slice (t.size - 4 * (number + 1)) 4).toNat % 0x10000000)
    else none

@[simp] theorem entries_size_set (t : ClusterTable) (cluster value : Nat) :
    (t.set cluster value).entries.size = t.entries.size := by
  simp [set]

theorem link_set_self (t : ClusterTable) {cluster value : Nat} (hc : cluster < t.entries.size)
    (hv : value < 0x10000000) : (t.set cluster value).link cluster = value := by
  simp [link, set, hc]
  omega

theorem link_set_of_ne (t : ClusterTable) {cluster other : Nat} (value : Nat)
    (h : cluster ≠ other) : (t.set cluster value).link other = t.link other := by
  simp [link, set, Array.getD_eq_getD_getElem?, h]

end ClusterTable

end BootImage.Fat
