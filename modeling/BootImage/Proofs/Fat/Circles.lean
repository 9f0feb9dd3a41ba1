import BootImage.Proofs.Fat.Chains
import BootImage.Proofs.Fat.Growing

/-!
# Chains that run in a circle

The entries of a table can say anything, so following them from some cluster on need not end. A
chain is given up as soon as it has more clusters than the volume. This is no guess: a chain that
ends visits no cluster twice, because what follows a cluster is settled by the cluster alone, so it
has at most as many clusters as there are; and more clusters than there are cannot be different
ones.

## Main definitions

* `Volume.Follows`: the clusters that are visited on the way from one number to another.
* `Volume.Circles`: on the way from a number on some cluster is visited twice.

## Main results

* `Volume.Follows.nodup`: on a way that ends outside no cluster is visited twice.
* `Disk.chain_exact`: a chain is refused just if it runs in a circle, and is complete otherwise.
-/

namespace BootImage.Fat

namespace Volume

variable {v : Volume} {c d d' : Int} {cs cs' : List Nat} {x : Nat}

/-- Whether a number, which may be a negative one, is that of a cluster. -/
def IsCluster (v : Volume) (c : Int) : Prop :=
  2 ≤ c ∧ c ≤ v.last

/-- Following the entries of the table from the number `c` on visits the clusters `cs` and comes to
the number `d`. The way may go on from there, if that is a cluster. -/
inductive Follows (v : Volume) : Int → List Nat → Int → Prop
  | stay (c : Int) : Follows v c [] c
  | step {c d : Int} {cs : List Nat} (hc : v.IsCluster c)
      (rest : Follows v (v.table.link c.toNat) cs d) : Follows v c (c.toNat :: cs) d

/-- Following the entries of the table from a number on visits some cluster twice. -/
def Circles (v : Volume) (c : Int) : Prop :=
  ∃ cs d, v.Follows c cs d ∧ ¬ cs.Nodup

theorem isCluster_iff : v.IsCluster c ↔ v.inRange c.toNat = true := by
  rw [IsCluster, inRange_iff]
  omega

theorem IsCluster.natCast_toNat (h : v.IsCluster c) : (c.toNat : Int) = c :=
  Int.toNat_of_nonneg (le_trans (by decide) h.1)

namespace Follows

theorem mem_range (h : v.Follows c cs d) (hx : x ∈ cs) : 2 ≤ x ∧ x ≤ v.last := by
  induction h with
  | stay => cases hx
  | step hc _ ih =>
    rcases List.mem_cons.1 hx with rfl | hx
    · exact inRange_iff.1 (isCluster_iff.1 hc)
    · exact ih hx

/-- A way that ends outside is the longest one from where it starts. -/
theorem isPrefix (h : v.Follows c cs d) (hd : ¬ v.IsCluster d) (h' : v.Follows c cs' d') :
    cs' <+: cs := by
  induction h generalizing cs' with
  | stay =>
    cases h' with
    | stay => exact List.prefix_rfl
    | step hc => exact absurd hc hd
  | step hc rest ih =>
    cases h' with
    | stay => exact List.nil_prefix
    | step _ rest' => exact List.cons_prefix_cons.2 ⟨rfl, ih hd rest'⟩

/-- From each cluster that it visits a way goes on to where it ends. -/
theorem exists_suffix (h : v.Follows c cs d) (hx : x ∈ cs) :
    ∃ before after, cs = before ++ after ∧ v.Follows x after d := by
  induction h with
  | stay => cases hx
  | @step c d cs hc rest ih =>
    rcases List.mem_cons.1 hx with rfl | hx
    · exact ⟨[], _, rfl, hc.natCast_toNat.symm ▸ .step hc rest⟩
    · obtain ⟨before, after, rfl, hafter⟩ := ih hx
      exact ⟨_ :: before, after, rfl, hafter⟩

/-- A way that ends outside visits no cluster twice: from the second visit on it would be as long as
from the first. -/
theorem nodup (h : v.Follows c cs d) (hd : ¬ v.IsCluster d) : cs.Nodup := by
  induction h with
  | stay => exact List.nodup_nil
  | @step c d cs hc rest ih =>
    refine List.nodup_cons.2 ⟨fun hmem => ?_, ih hd⟩
    obtain ⟨before, after, rfl, hafter⟩ := rest.exists_suffix hmem
    rw [hc.natCast_toNat] at hafter
    have hshort := (hafter.isPrefix hd (.step hc rest)).length_le
    rw [List.length_cons, List.length_append] at hshort
    omega

/-- No way that ends outside and no part of it runs in a circle. -/
theorem not_circles (h : v.Follows c cs d) (hd : ¬ v.IsCluster d) : ¬ v.Circles c := by
  rintro ⟨cs', d', h', hcircle⟩
  exact hcircle ((h.nodup hd).sublist (h.isPrefix hd h').sublist)

/-- A way with more clusters than there are visits one of them twice. -/
theorem circles_of_length (h : v.Follows c cs d) (hlong : v.clusters < cs.length) :
    v.Circles c := by
  refine ⟨cs, d, h, fun hnodup => ?_⟩
  have hsub : cs ⊆ List.range' 2 v.clusters := fun x hx => by
    have := h.mem_range hx
    rw [last] at this
    rw [List.mem_range'_1]
    omega
  have hle := (hnodup.subperm hsub).length_le
  rw [List.length_range'] at hle
  omega

end Follows

/-- Where the bounded search along a chain comes to: outside, or past the bound. -/
theorem chainFrom_cases (v : Volume) (seen : List Nat) (limit : Nat) (c : Int) :
    (∃ cs d, v.chainFrom seen limit c.toNat = some (seen.reverse ++ cs) ∧ v.Follows c cs d ∧
      ¬ v.IsCluster d) ∨
    (∃ cs d, v.chainFrom seen limit c.toNat = none ∧ v.Follows c cs d ∧
      cs.length = limit + 1) := by
  induction limit generalizing seen c with
  | zero =>
    by_cases hc : v.IsCluster c
    · refine .inr ⟨[c.toNat], v.table.link c.toNat, ?_, .step hc (.stay _), rfl⟩
      rw [chainFrom, if_pos (isCluster_iff.1 hc)]
    · refine .inl ⟨[], c, ?_, .stay c, hc⟩
      rw [chainFrom, if_neg (fun h => hc (isCluster_iff.2 h)), List.append_nil]
  | succ limit ih =>
    by_cases hc : v.IsCluster c
    · have hnext := ih (c.toNat :: seen) (v.table.link c.toNat)
      rw [Int.toNat_natCast] at hnext
      rw [chainFrom, if_pos (isCluster_iff.1 hc)]
      obtain ⟨cs, d, hchain, hway, hd⟩ | ⟨cs, d, hchain, hway, hlength⟩ := hnext
      · refine .inl ⟨c.toNat :: cs, d, ?_, .step hc hway, hd⟩
        rw [hchain, List.reverse_cons, List.append_assoc, List.singleton_append]
      · exact .inr ⟨c.toNat :: cs, d, hchain, .step hc hway, congrArg (· + 1) hlength⟩
    · refine .inl ⟨[], c, ?_, .stay c, hc⟩
      rw [chainFrom, if_neg (fun h => hc (isCluster_iff.2 h)), List.append_nil]

/-- A chain is found, and ends outside, or it is refused, and runs in a circle. -/
theorem chain_cases (v : Volume) (start : Int) :
    (∃ cs d, v.chain start = .ok cs ∧ v.Follows start cs d ∧ ¬ v.IsCluster d) ∨
      v.chain start = .error (.chainLoop v.image start) ∧ v.Circles start := by
  obtain ⟨cs, d, hchain, hway, hd⟩ | ⟨cs, d, hchain, hway, hlength⟩ :=
    v.chainFrom_cases [] v.clusters start
  · refine .inl ⟨cs, d, ?_, hway, hd⟩
    rw [chain, hchain]
    rfl
  · refine .inr ⟨?_, hway.circles_of_length (by omega)⟩
    rw [chain, hchain]

end Volume

namespace Disk

/-- Giving the clusters of a chain back changes nothing if there is no chain. -/
theorem on_release_error {e : Error} (d : Disk) {start : Int}
    (h : d.volume.chain start = .error e) : (Edit.release start).on d = (.error e, d) := by
  refine Edit.onVolume_error ?_
  rw [Volume.release, h]
  rfl

/-- From every number on, and whatever the entries of the table say, a chain is refused just if it
runs in a circle, and giving its clusters back changes nothing then. Otherwise it is the clusters
that are visited up to the first number that is none of a cluster, each of them once. -/
theorem chain_exact (d : Disk) (start : Int) :
    ((∃ e, d.volume.chain start = .error e) ↔ d.volume.Circles start) ∧
      (¬ d.volume.Circles start → ∃ cs stop, d.volume.chain start = .ok cs ∧
        d.volume.Follows start cs stop ∧ ¬ d.volume.IsCluster stop ∧ cs.Nodup) ∧
      ∀ e, d.volume.chain start = .error e → e = .chainLoop d.volume.image start ∧
        e.kind = .format ∧ (Edit.release start).on d = (.error e, d) := by
  obtain ⟨cs, stop, hchain, hway, hstop⟩ | ⟨hchain, hcircle⟩ := d.volume.chain_cases start
  · refine ⟨⟨?_, fun hcircle => absurd hcircle (hway.not_circles hstop)⟩,
      fun _ => ⟨cs, stop, hchain, hway, hstop, hway.nodup hstop⟩, fun e he => ?_⟩
    · rintro ⟨e, he⟩
      cases hchain.symm.trans he
    · cases hchain.symm.trans he
  · refine ⟨⟨fun _ => hcircle, fun _ => ⟨_, hchain⟩⟩, fun h => absurd hcircle h, fun e he => ?_⟩
    obtain rfl := Except.error.inj (hchain.symm.trans he)
    exact ⟨rfl, rfl, d.on_release_error hchain⟩

end Disk

end BootImage.Fat
