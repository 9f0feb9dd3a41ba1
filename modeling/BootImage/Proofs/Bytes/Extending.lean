import BootImage.Bytes.Content

/-!
# Contents that go on

## Main definitions

* `Content.Extends`: a content goes on where another one ends.

## Main results

* `Content.Extends.read_eq`: what lies in a content is read alike in one that goes on.
-/

namespace BootImage.Content

/-- Reading goes on where it stopped. -/
theorem read_add (c : Content) {start len : Nat} (more : Nat) (h : start + len ≤ c.size) :
    c.read start (len + more) = c.read start len ++ c.read (start + len) more := by
  have hlen : min len (c.size - start) = len := by omega
  have hboth : min (len + more) (c.size - start) =
      len + min more (c.size - (start + len)) := by omega
  rw [read_eq, read_eq, read_eq, hlen, hboth, List.range_add, List.map_append, List.map_map]
  refine congrArg _ (List.map_congr_left fun i _ => ?_)
  rw [Function.comp, Nat.add_assoc]

/-- A content goes on where another one ends. -/
def Extends (c c' : Content) : Prop :=
  c.size ≤ c'.size ∧ ∀ i < c.size, c'.get i = c.get i

theorem Extends.refl (c : Content) : c.Extends c := ⟨Nat.le_refl _, fun _ _ => rfl⟩

theorem Extends.trans {c c' c'' : Content} (h : c.Extends c') (h' : c'.Extends c'') :
    c.Extends c'' := by
  refine ⟨Nat.le_trans h.1 h'.1, fun i hi => ?_⟩
  rw [h'.2 i (Nat.lt_of_lt_of_le hi h.1), h.2 i hi]

theorem extends_append (c : Content) (bs : Bytes) : c.Extends (c.append bs) := by
  refine ⟨?_, fun i hi => ?_⟩
  · have hsize : (c.append bs).size = if bs = [] then c.size else max c.size (c.size + bs.length) :=
      rfl
    rw [hsize]
    split <;> omega
  · rw [append, get_write, if_neg (by omega)]

/-- A range that lies in a content is read alike in one that goes on. -/
theorem Extends.read_eq {c c' : Content} (h : c.Extends c') {start len : Nat}
    (hfit : start + len ≤ c.size) : c'.read start len = c.read start len := by
  have hle := h.1
  rw [Content.read_eq, Content.read_eq, show min len (c'.size - start) = len by omega,
    show min len (c.size - start) = len by omega]
  refine List.map_congr_left fun i hi => h.2 _ ?_
  have := List.mem_range.1 hi
  omega

/-- The bytes of a content are the first ones of a content that goes on. -/
theorem Extends.toBytes_prefix {c c' : Content} (h : c.Extends c') : c.toBytes <+: c'.toBytes := by
  have hall : c'.read 0 c.size = c.toBytes := h.read_eq (by omega)
  have hsplit : c'.size = c.size + (c'.size - c.size) := (Nat.add_sub_cancel' h.1).symm
  refine ⟨c'.read c.size (c'.size - c.size), ?_⟩
  rw [← hall, toBytes, hsplit, read_add _ _ (by have := h.1; omega), Nat.zero_add,
    Nat.add_sub_cancel_left]

end BootImage.Content
