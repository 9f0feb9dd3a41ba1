import BootImage.Fat.Volume
import Mathlib.Data.Finset.Card
import Mathlib.Data.List.Iterate
import Mathlib.Order.Interval.Finset.Nat

/-!
# Chains of clusters

The clusters of a file or directory are found by following the table from the first one until an
entry says that it is the last. `ClusterTable.Chain` is this as a relation; since the table tells
one follower for each cluster, a chain is determined by where it starts, and it visits no cluster
twice. Hence the bound that `Volume.chain` puts on the length of a chain never cuts one off.

Taking and giving back clusters is told by two things: the set of free clusters, and what the
entries of the clusters that are not involved say, namely what they said before.

## Main definitions

* `ClusterTable.Chain`: a chain from its first cluster to an end mark.
* `ClusterTable.freeSet`: the free clusters.
* `Volume.freeFrom`: the free clusters, in the order in which a search passes them.
* `Volume.Searches`: the search for free clusters, without a bound.

## Main results

* `ClusterTable.Chain.unique`, `ClusterTable.Chain.nodup`.
* `Volume.chain_eq`: what `Volume.chain` finds.
* `Volume.allocate_eq`: what `Volume.allocate` takes, and that it succeeds.
* `ClusterTable.chain_linkUp`: the clusters that were taken are a chain.
-/

namespace BootImage.Fat

namespace ClusterTable

variable {t t' : ClusterTable} {last c : Nat} {cs : List Nat}

/-- The clusters from `c` on, each followed by the one that its entry names, up to one whose entry
is the end mark. `last` is the highest cluster number. -/
inductive Chain (t : ClusterTable) (last : Nat) : Nat → List Nat → Prop
  | single {c : Nat} (hlow : 2 ≤ c) (hhigh : c ≤ last) (hend : t.link c = endOfChain) :
      Chain t last c [c]
  | cons {c : Nat} {cs : List Nat} (hlow : 2 ≤ c) (hhigh : c ≤ last)
      (rest : Chain t last (t.link c) cs) : Chain t last c (c :: cs)

theorem Chain.exists_cons (h : t.Chain last c cs) : ∃ rest, cs = c :: rest := by
  cases h with
  | single => exact ⟨[], rfl⟩
  | cons => exact ⟨_, rfl⟩

theorem Chain.ne_nil (h : t.Chain last c cs) : cs ≠ [] := by
  obtain ⟨rest, rfl⟩ := h.exists_cons
  simp

theorem Chain.mem_head (h : t.Chain last c cs) : c ∈ cs := by
  obtain ⟨rest, rfl⟩ := h.exists_cons
  simp

theorem Chain.mem_range (h : t.Chain last c cs) {x : Nat} (hx : x ∈ cs) : 2 ≤ x ∧ x ≤ last := by
  induction h with
  | single hlow hhigh =>
    rw [List.mem_singleton.1 hx]
    exact ⟨hlow, hhigh⟩
  | cons hlow hhigh _ ih =>
    rcases List.mem_cons.1 hx with rfl | hx
    · exact ⟨hlow, hhigh⟩
    · exact ih hx

theorem Chain.head_range (h : t.Chain last c cs) : 2 ≤ c ∧ c ≤ last :=
  h.mem_range h.mem_head

/-- No cluster of a chain is free. -/
theorem Chain.link_ne_free (h : t.Chain last c cs) {x : Nat} (hx : x ∈ cs) : t.link x ≠ free := by
  induction h with
  | single _ _ hend =>
    rw [List.mem_singleton.1 hx, hend]
    decide
  | cons _ _ rest ih =>
    rcases List.mem_cons.1 hx with rfl | hx
    · have := rest.head_range.1
      simp only [free]
      omega
    · exact ih hx

/-- A chain is determined by where it starts. -/
theorem Chain.unique (hlast : last < endOfChain) (h : t.Chain last c cs) {ds : List Nat}
    (h' : t.Chain last c ds) : cs = ds := by
  induction h generalizing ds with
  | single _ _ hend =>
    cases h' with
    | single => rfl
    | cons _ _ rest =>
      have := rest.head_range.2
      omega
  | cons _ _ rest ih =>
    cases h' with
    | single _ _ hend =>
      have := rest.head_range.2
      omega
    | cons _ _ rest' => rw [ih rest']

theorem Chain.exists_suffix (h : t.Chain last c cs) {x : Nat} (hx : x ∈ cs) :
    ∃ before after, cs = before ++ after ∧ t.Chain last x after := by
  induction h with
  | single hlow hhigh hend =>
    obtain rfl := List.mem_singleton.1 hx
    exact ⟨[], _, rfl, .single hlow hhigh hend⟩
  | cons hlow hhigh rest ih =>
    rcases List.mem_cons.1 hx with rfl | hx
    · exact ⟨[], _, rfl, .cons hlow hhigh rest⟩
    · obtain ⟨before, after, rfl, hafter⟩ := ih hx
      exact ⟨_ :: before, after, rfl, hafter⟩

/-- A chain visits no cluster twice: from the second visit on it would be as long as from the
first. -/
theorem Chain.nodup (hlast : last < endOfChain) (h : t.Chain last c cs) : cs.Nodup := by
  induction h with
  | single => simp
  | @cons c cs hlow hhigh rest ih =>
    refine List.nodup_cons.2 ⟨fun hmem => ?_, ih⟩
    obtain ⟨before, after, rfl, hafter⟩ := rest.exists_suffix hmem
    have hsame := (Chain.cons hlow hhigh rest).unique hlast hafter
    have := congrArg List.length hsame
    simp only [List.length_cons, List.length_append] at this
    omega

theorem Chain.length_le (hlast : last < endOfChain) (h : t.Chain last c cs) :
    cs.length ≤ last - 1 := by
  have hsub : cs.toFinset ⊆ Finset.Icc 2 last := fun x hx =>
    Finset.mem_Icc.2 (h.mem_range (List.mem_toFinset.1 hx))
  have := Finset.card_le_card hsub
  rw [List.toFinset_card_of_nodup (h.nodup hlast), Nat.card_Icc] at this
  omega

/-- A chain stays one as long as the entries of its own clusters stay. -/
theorem Chain.congr (h : t.Chain last c cs) (hsame : ∀ x ∈ cs, t'.link x = t.link x) :
    t'.Chain last c cs := by
  induction h with
  | single hlow hhigh hend => exact .single hlow hhigh (by rw [hsame _ (by simp), hend])
  | cons hlow hhigh rest ih =>
    refine .cons hlow hhigh ?_
    rw [hsame _ (by simp)]
    exact ih fun x hx => hsame x (List.mem_cons_of_mem _ hx)

/-- The last of different clusters is not among those before it. -/
theorem not_mem_dropLast (h : cs.Nodup) {z : Nat} (hz : cs.getLast? = some z) :
    z ∉ cs.dropLast := by
  obtain ⟨init, rfl⟩ := List.getLast?_eq_some_iff.1 hz
  rw [List.dropLast_concat]
  exact fun hmem => (List.nodup_append.1 h).2.2 z hmem z (by simp) rfl

/-- A chain gets one more cluster by an entry for its last one. -/
theorem Chain.concat (h : t.Chain last c cs) {z y : Nat} (hz : cs.getLast? = some z)
    (hlink : t'.link z = y) (hy : t'.Chain last y [y]) (hnew : z ∉ cs.dropLast)
    (hsame : ∀ x ∈ cs, x ≠ z → t'.link x = t.link x) : t'.Chain last c (cs ++ [y]) := by
  induction h with
  | single hlow hhigh =>
    obtain rfl : _ = z := by simpa using hz
    refine .cons hlow hhigh ?_
    rwa [hlink]
  | @cons c cs hlow hhigh rest ih =>
    obtain ⟨d, rfl⟩ := rest.exists_cons
    rw [List.dropLast_cons_cons, List.mem_cons, not_or] at hnew
    have hne : c ≠ z := fun h => hnew.1 h.symm
    refine .cons hlow hhigh ?_
    rw [hsame c (by simp) hne]
    exact ih (by simpa using hz) hnew.2 fun x hx => hsame x (List.mem_cons_of_mem _ hx)

/-! ### The free clusters -/

/-- The free clusters. -/
def freeSet (t : ClusterTable) (last : Nat) : Finset Nat :=
  (Finset.Icc 2 last).filter fun x => t.link x = free

theorem mem_freeSet {x : Nat} : x ∈ t.freeSet last ↔ (2 ≤ x ∧ x ≤ last) ∧ t.link x = free := by
  simp [freeSet]

theorem freeSet_congr (h : ∀ x, t'.link x = free ↔ t.link x = free) :
    t'.freeSet last = t.freeSet last :=
  Finset.filter_congr fun x _ => h x

theorem countFree_eq (t : ClusterTable) (n : Nat) :
    Volume.countFree t n = (t.freeSet (n + 1)).card := by
  have hset : t.freeSet (n + 1) =
      ((List.range' 2 n).filter fun x => t.link x == free).toFinset := by
    ext x
    simp only [mem_freeSet, List.mem_toFinset, List.mem_filter, List.mem_range'_1, beq_iff_eq]
    omega
  rw [hset, List.toFinset_card_of_nodup ((List.nodup_range' ..).filter _), Volume.countFree,
    List.countP_eq_length_filter]

/-! ### Linking clusters up -/

theorem link_linkUp_of_not_mem (t : ClusterTable) {found : List Nat} {x : Nat} (hx : x ∉ found) :
    (Volume.linkUp t found).link x = t.link x := by
  fun_induction Volume.linkUp t found with
  | case1 => rfl
  | case2 t c => rw [link_set_of_ne _ _ (by simpa [eq_comm] using hx)]
  | case3 t c d rest ih =>
    rw [ih (by simp_all), link_set_of_ne _ _ (by rintro rfl; simp at hx)]

@[simp] theorem entries_size_linkUp (t : ClusterTable) (found : List Nat) :
    (Volume.linkUp t found).entries.size = t.entries.size := by
  fun_induction Volume.linkUp t found with
  | case1 => rfl
  | case2 => simp
  | case3 t c d rest ih => rw [ih, entries_size_set]

@[simp] theorem rest_linkUp (t : ClusterTable) (found : List Nat) :
    (Volume.linkUp t found).rest = t.rest := by
  fun_induction Volume.linkUp t found with
  | case1 => rfl
  | case2 => rfl
  | case3 t c d rest ih => rw [ih, set]

/-- Clusters that are linked up are a chain. -/
theorem chain_linkUp (hsize : last < t.entries.size) (hlast : last < endOfChain) {rest : List Nat}
    (hnodup : (c :: rest).Nodup) (hrange : ∀ x ∈ c :: rest, 2 ≤ x ∧ x ≤ last) :
    (Volume.linkUp t (c :: rest)).Chain last c (c :: rest) := by
  have hc := hrange c (by simp)
  induction rest generalizing t c with
  | nil =>
    refine .single hc.1 hc.2 ?_
    rw [Volume.linkUp, link_set_self _ (by omega) (by decide)]
  | cons d rest ih =>
    have hd := hrange d (by simp)
    have htail := ih (t := t.set c d) (c := d) (by simpa) hnodup.of_cons
      (fun x hx => hrange x (List.mem_cons_of_mem c hx)) hd
    refine .cons hc.1 hc.2 ?_
    rw [Volume.linkUp, link_linkUp_of_not_mem _ (List.nodup_cons.1 hnodup).1,
      link_set_self _ (by omega) (by simp only [endOfChain] at hlast; omega)]
    exact htail

/-- Clusters that are linked up are not free any more. -/
theorem freeSet_linkUp (hsize : last < t.entries.size) (hlast : last < endOfChain)
    {found : List Nat} (hnodup : found.Nodup) (hrange : ∀ x ∈ found, 2 ≤ x ∧ x ≤ last) :
    (Volume.linkUp t found).freeSet last = t.freeSet last \ found.toFinset := by
  ext x
  rw [Finset.mem_sdiff, mem_freeSet, mem_freeSet, List.mem_toFinset]
  by_cases hx : x ∈ found
  · cases found with
    | nil => simp at hx
    | cons c rest =>
      have := (chain_linkUp hsize hlast hnodup hrange).link_ne_free hx
      simp [hx, this]
  · rw [link_linkUp_of_not_mem _ hx]
    simp [hx]

/-! ### Freeing clusters -/

theorem link_set_free (t : ClusterTable) (x : Nat) : (t.set x free).link x = free := by
  by_cases hx : x < t.entries.size
  · exact link_set_self t hx (by decide)
  · simp [link, set, Array.getD_eq_getD_getElem?, free, hx]

theorem link_freeAll (t : ClusterTable) (cs : List Nat) (x : Nat) :
    (Volume.freeAll t cs).link x = if x ∈ cs then free else t.link x := by
  induction cs generalizing t with
  | nil => simp [Volume.freeAll]
  | cons c cs ih =>
    have hstep : Volume.freeAll t (c :: cs) = Volume.freeAll (t.set c free) cs := rfl
    rw [hstep, ih]
    by_cases hx : x ∈ cs
    · simp [hx]
    · rw [if_neg hx]
      by_cases hc : x = c
      · subst hc
        rw [if_pos (by simp), link_set_free]
      · rw [if_neg (by simp [hx, hc]), link_set_of_ne _ _ fun h => hc h.symm]

@[simp] theorem entries_size_freeAll (t : ClusterTable) (cs : List Nat) :
    (Volume.freeAll t cs).entries.size = t.entries.size := by
  induction cs generalizing t with
  | nil => rfl
  | cons c cs ih => exact (ih (t.set c free)).trans (entries_size_set ..)

@[simp] theorem rest_freeAll (t : ClusterTable) (cs : List Nat) :
    (Volume.freeAll t cs).rest = t.rest := by
  induction cs generalizing t with
  | nil => rfl
  | cons c cs ih => exact ih (t.set c free)

theorem freeSet_freeAll {cs : List Nat} (hrange : ∀ x ∈ cs, 2 ≤ x ∧ x ≤ last) :
    (Volume.freeAll t cs).freeSet last = t.freeSet last ∪ cs.toFinset := by
  ext x
  rw [Finset.mem_union, mem_freeSet, mem_freeSet, List.mem_toFinset, link_freeAll]
  by_cases hx : x ∈ cs
  · simp [hx, hrange x hx]
  · simp [hx]

end ClusterTable

namespace Volume

variable {v : Volume}

theorem inRange_iff {x : Nat} : v.inRange x = true ↔ 2 ≤ x ∧ x ≤ v.last := by
  simp [inRange]

/-! ### Following a chain -/

theorem chainFrom_eq (hlast : v.last < ClusterTable.endOfChain) {c : Nat} {cs : List Nat}
    (h : v.table.Chain v.last c cs) (seen : List Nat) {limit : Nat} (hlimit : cs.length ≤ limit) :
    v.chainFrom seen limit c = some (seen.reverse ++ cs) := by
  induction h generalizing seen limit with
  | single hlow hhigh hend =>
    obtain ⟨limit, rfl⟩ : ∃ n, limit = n + 1 := ⟨limit - 1, by simp at hlimit; omega⟩
    have hstop : v.inRange ClusterTable.endOfChain = false := by
      rw [Bool.eq_false_iff, ne_eq, inRange_iff]
      omega
    rw [chainFrom, if_pos (inRange_iff.2 ⟨hlow, hhigh⟩), hend]
    cases limit <;> simp [chainFrom, hstop]
  | cons hlow hhigh rest ih =>
    obtain ⟨limit, rfl⟩ : ∃ n, limit = n + 1 := ⟨limit - 1, by simp at hlimit; omega⟩
    rw [chainFrom, if_pos (inRange_iff.2 ⟨hlow, hhigh⟩), ih _ (by simpa using hlimit)]
    simp

/-- A chain is found in full. -/
theorem chain_eq (hlast : v.last < ClusterTable.endOfChain) {c : Nat} {cs : List Nat}
    (h : v.table.Chain v.last c cs) : v.chain c = .ok cs := by
  have hlen : cs.length ≤ v.clusters := by
    have := h.length_le hlast
    rw [last] at this
    omega
  rw [chain, Int.toNat_natCast, chainFrom_eq hlast h [] hlen]
  rfl

/-! ### Searching for free clusters -/

theorem inRange_next (hv : 0 < v.clusters) {x : Nat} (hx : v.inRange x = true) :
    v.inRange (v.next x) = true := by
  rw [inRange_iff] at hx ⊢
  have hlast : v.last = v.clusters + 1 := rfl
  by_cases h : x < v.last
  · rw [next, if_pos h]
    omega
  · rw [next, if_neg h]
    omega

/-- The search takes the first free clusters of those that it passes. -/
theorem findFree_eq (hv : 0 < v.clusters) (found : List Nat) (limit needed : Nat) {c m : Nat}
    (hc : v.inRange c = true) (hm : m ≤ limit)
    (hneeded : needed ≤
      ((List.iterate v.next c m).filter fun x => v.table.link x = ClusterTable.free).length) :
    ∃ hint, v.inRange hint = true ∧ v.findFree found limit needed c = (found.reverse ++
      ((List.iterate v.next c m).filter fun x => v.table.link x = ClusterTable.free).take needed,
      hint) := by
  induction m generalizing found limit needed c with
  | zero =>
    obtain rfl : needed = 0 := by simpa using hneeded
    refine ⟨c, hc, ?_⟩
    cases limit <;> simp [findFree]
  | succ m ih =>
    obtain ⟨limit, rfl⟩ : ∃ n, limit = n + 1 := ⟨limit - 1, by omega⟩
    cases needed with
    | zero => exact ⟨c, hc, by simp [findFree]⟩
    | succ needed =>
      rw [List.iterate, List.filter_cons] at hneeded ⊢
      by_cases hfree : v.table.link c = ClusterTable.free
      · rw [if_pos (by simpa using hfree)] at hneeded ⊢
        obtain ⟨hint, hhint, heq⟩ := ih (c :: found) limit needed
          (inRange_next hv hc) (by omega) (by simpa using hneeded)
        refine ⟨hint, hhint, ?_⟩
        rw [findFree, if_pos hfree, heq]
        simp
      · rw [if_neg (by simpa using hfree)] at hneeded ⊢
        obtain ⟨hint, hhint, heq⟩ := ih found limit (needed + 1)
          (inRange_next hv hc) (by omega) hneeded
        refine ⟨hint, hhint, ?_⟩
        rw [findFree, if_neg hfree, heq]

/-- The search for free clusters without a bound: from the cluster `c` on, until `needed` of them
are found. It ends with the clusters that it found and the one that it comes to next. -/
inductive Searches (v : Volume) : (needed c : Nat) → (found : List Nat) → (hint : Nat) → Prop
  | done (c : Nat) : Searches v 0 c [] c
  | take {needed c hint : Nat} {found : List Nat} (hc : v.table.link c = ClusterTable.free)
      (rest : Searches v needed (v.next c) found hint) : Searches v (needed + 1) c (c :: found) hint
  | pass {needed c hint : Nat} {found : List Nat} (hc : v.table.link c ≠ ClusterTable.free)
      (rest : Searches v (needed + 1) (v.next c) found hint) : Searches v (needed + 1) c found hint

/-- A search with a bound that finds as much as it should is one without a bound. -/
theorem findFree_cases (found : List Nat) (limit needed c : Nat) :
    ∃ cs hint, v.findFree found limit needed c = (found.reverse ++ cs, hint) ∧
      (cs.length = needed → v.Searches needed c cs hint) := by
  fun_induction findFree v found limit needed c with
  | case1 found needed c =>
    refine ⟨[], c, by rw [List.append_nil], fun hneeded => ?_⟩
    rw [← hneeded]
    exact .done c
  | case2 found limit c => exact ⟨[], c, by rw [List.append_nil], fun _ => .done c⟩
  | case3 found limit needed c hfree ih =>
    obtain ⟨cs, hint, heq, hsearch⟩ := ih
    refine ⟨c :: cs, hint, by rw [heq, List.reverse_cons, List.append_assoc]; rfl, fun hlen => ?_⟩
    exact .take hfree (hsearch (by simpa using hlen))
  | case4 found limit needed c hused ih =>
    obtain ⟨cs, hint, heq, hsearch⟩ := ih
    exact ⟨cs, hint, heq, fun hlen => .pass hused (hsearch hlen)⟩

theorem searches_of_findFree {limit needed c hint : Nat} {cs : List Nat}
    (h : v.findFree [] limit needed c = (cs, hint)) (hlen : cs.length = needed) :
    v.Searches needed c cs hint := by
  obtain ⟨cs', hint', heq, hsearch⟩ := v.findFree_cases [] limit needed c
  cases h.symm.trans heq
  exact hsearch hlen

theorem iterate_next_of_le {c m : Nat} (h : c + m ≤ v.last + 1) :
    List.iterate v.next c m = List.range' c m := by
  induction m generalizing c with
  | zero => rfl
  | succ m ih =>
    rw [List.iterate, List.range'_succ]
    cases m with
    | zero => rfl
    | succ m =>
      have hnext : v.next c = c + 1 := if_pos (by omega)
      rw [hnext, ih (by omega)]

/-- One turn of a search from the cluster `c` on, in the order in which it passes the clusters: up
to the last one, and from the first one on again. -/
def turn (v : Volume) (c : Nat) : List Nat :=
  List.range' c (v.clusters + 2 - c) ++ List.range' 2 (c - 2)

theorem iterate_next_eq {c : Nat} (hc : v.inRange c = true) :
    List.iterate v.next c v.clusters = v.turn c := by
  obtain ⟨hlow, hhigh⟩ := inRange_iff.1 hc
  rw [last] at hhigh
  have hback : v.next^[v.clusters + 2 - c] c = 2 := by
    have hlen : v.clusters + 2 - c = (v.clusters + 1 - c) + 1 := by omega
    have hreach : ∀ k, c + k ≤ v.last → v.next^[k] c = c + k := by
      intro k hk
      induction k with
      | zero => rfl
      | succ k ih =>
        rw [Function.iterate_succ_apply', ih (by omega), next, if_pos (by omega)]
        omega
    rw [hlen, Function.iterate_succ_apply', hreach _ (by rw [last]; omega), next,
      if_neg (by rw [last]; omega)]
  have hsplit : v.clusters = (v.clusters + 2 - c) + (c - 2) := by omega
  rw [hsplit, List.iterate_add, hback, iterate_next_of_le (by rw [last]; omega),
    iterate_next_of_le (by rw [last]; omega), turn]

/-- From any cluster on, going round once passes every cluster once. -/
theorem turn_perm {c : Nat} (hc : v.inRange c = true) :
    (v.turn c).Perm (List.range' 2 v.clusters) := by
  obtain ⟨hlow, hhigh⟩ := inRange_iff.1 hc
  rw [last] at hhigh
  refine List.perm_append_comm.trans ?_
  have hjoin := @List.range'_append 2 (c - 2) (v.clusters + 2 - c) 1
  rw [show 2 + 1 * (c - 2) = c by omega, show c - 2 + (v.clusters + 2 - c) = v.clusters by omega]
    at hjoin
  rw [hjoin]

/-- The free clusters, in the order in which a search from the cluster `c` on passes them. -/
def freeFrom (v : Volume) (c : Nat) : List Nat :=
  (v.turn c).filter fun x => v.table.link x = ClusterTable.free

theorem nodup_freeFrom {c : Nat} (hc : v.inRange c = true) : (v.freeFrom c).Nodup :=
  ((turn_perm hc).nodup_iff.2 (List.nodup_range' ..)).filter _

theorem mem_freeFrom {c x : Nat} (hc : v.inRange c = true) :
    x ∈ v.freeFrom c ↔ x ∈ v.table.freeSet v.last := by
  rw [freeFrom, List.mem_filter, (turn_perm hc).mem_iff, List.mem_range'_1,
    ClusterTable.mem_freeSet, last]
  simp only [decide_eq_true_eq]
  omega

theorem length_freeFrom {c : Nat} (hc : v.inRange c = true) :
    (v.freeFrom c).length = countFree v.table v.clusters := by
  rw [freeFrom, ((turn_perm hc).filter _).length_eq, countFree, List.countP_eq_length_filter]
  rfl

/-- What is taken when enough clusters are free: the first free ones that a search from the hint on
passes, linked up. -/
theorem allocate_eq {count : Nat} (hv : 0 < v.clusters)
    (hfree : v.free = countFree v.table v.clusters) (hhint : v.inRange v.hint = true)
    (hcount : count ≤ v.free) :
    ∃ found hint, v.allocate count = .ok (found,
        { v with table := linkUp v.table found, free := v.free - count, hint }) ∧
      found.length = count ∧ found.Nodup ∧ (∀ x ∈ found, x ∈ v.table.freeSet v.last) ∧
      v.inRange hint = true ∧ found = (v.freeFrom v.hint).take count ∧
      v.Searches count v.hint found hint := by
  have hlen : ((v.freeFrom v.hint).take count).length = count := by
    rw [List.length_take, length_freeFrom hhint]
    omega
  have hnodup := (nodup_freeFrom hhint).sublist (List.take_sublist count _)
  have hmem : ∀ x ∈ (v.freeFrom v.hint).take count, x ∈ v.table.freeSet v.last :=
    fun x hx => (mem_freeFrom hhint).1 (List.mem_of_mem_take hx)
  by_cases hzero : count = 0
  · subst hzero
    refine ⟨_, v.hint, ?_, hlen, hnodup, hmem, hhint, rfl, .done v.hint⟩
    rw [allocate, if_pos (by rfl)]
    rfl
  have hlimit : v.clusters ≤ count * v.clusters := Nat.le_mul_of_pos_left _ (by omega)
  have hneeded : count ≤ (v.freeFrom v.hint).length := by
    rw [length_freeFrom hhint]
    omega
  rw [freeFrom, ← iterate_next_eq hhint] at hneeded hlen hnodup hmem
  obtain ⟨hint, hin, heq⟩ := findFree_eq hv [] (count * v.clusters) count hhint hlimit hneeded
  refine ⟨_, hint, ?_, hlen, hnodup, hmem, hin, by rw [freeFrom, ← iterate_next_eq hhint],
    searches_of_findFree heq hlen⟩
  simp only [allocate]
  rw [if_neg (by omega), if_neg (by omega), if_neg (by omega), Int.toNat_natCast, heq]
  rfl

end Volume

end BootImage.Fat
