import BootImage.Fat.Edit
import BootImage.Proofs.Fat.Reading

/-!
# Putting an entry into a directory

An entry that is added needs a run of free slots. `growth` counts the clusters by which the
directory has to grow to have one, and `findPlace` grows it one cluster at a time until there is
one; that the two agree is what makes the check of the free clusters sufficient, so that nothing can
fail any more once a change has begun.

## Main definitions

* `Edit.on`: what a change gives, and the disk after it.
* `Disk.Alike`: one volume in two states.
* `Disk.Supplies`: clusters were taken for an entry.

## Main results

* `Edit.growth_facts`: the directory has room after growing by `growth`, and not before.
* `Edit.findPlace_on`: a directory grows by just that.
* `Edit.addEntry_on`, `Edit.addEntry_supplied`: adding an entry succeeds when enough clusters are
  free.
-/

namespace BootImage.Fat

namespace Edit

/-! ### Running a change -/

section Run

variable {α β : Type} {d d' : Disk} {e : Error} {a : α}

/-- What a change gives, and the disk after it. -/
def on (x : Edit α) (d : Disk) : Except Error α × Disk :=
  x.run.run d

theorem on_pure (a : α) (d : Disk) : (pure a : Edit α).on d = (.ok a, d) := rfl

theorem on_throw (e : Error) (d : Disk) : (throw e : Edit α).on d = (.error e, d) := rfl

theorem on_get (d : Disk) : (get : Edit Disk).on d = (.ok d, d) := rfl

theorem on_modify (f : Disk → Disk) (d : Disk) : (modify f : Edit Unit).on d = (.ok (), f d) := rfl

theorem on_query (f : Disk → Except Error α) (d : Disk) : (query f).on d = (f d, d) := rfl

theorem on_bind_ok {x : Edit α} (f : α → Edit β) (h : x.on d = (.ok a, d')) :
    (x >>= f).on d = (f a).on d' := by
  have h' : x d = (.ok a, d') := h
  change (match x d with | (r, s) => ExceptT.bindCont f r s) = _
  rw [h']
  rfl

theorem on_bind_error {x : Edit α} (f : α → Edit β) (h : x.on d = (.error e, d')) :
    (x >>= f).on d = (.error e, d') := by
  have h' : x d = (.error e, d') := h
  change (match x d with | (r, s) => ExceptT.bindCont f r s) = _
  rw [h']
  rfl

theorem on_refuse {p : Prop} [Decidable p] (hp : p) (e : Error) (k : Edit α) (d : Disk) :
    (do
      if p then throw e
      k : Edit α).on d = (.error e, d) := by
  simp only [hp, if_true]
  exact on_bind_error _ (on_throw e d)

theorem on_pass {p : Prop} [Decidable p] (hp : ¬ p) (e : Error) (k : Edit α) (d : Disk) :
    (do
      if p then throw e
      k : Edit α).on d = k.on d := by
  simp only [hp, if_false]

theorem onVolume_ok {f : Volume → Except Error (α × Volume)} {v : Volume}
    (h : f d.volume = .ok (a, v)) : (onVolume f).on d = (.ok a, { d with volume := v }) := by
  rw [onVolume, on_bind_ok _ ((on_query _ d).trans (congrArg (·, d) h))]
  rfl

theorem onVolume_error {f : Volume → Except Error (α × Volume)} (h : f d.volume = .error e) :
    (onVolume f).on d = (.error e, d) := by
  rw [onVolume, on_bind_error _ ((on_query _ d).trans (congrArg (·, d) h))]

theorem on_checkOpen (hopen : d.volume.closed = false) (hwritable : d.volume.readOnly = false) :
    (query (·.volume.checkOpen)).on d = (.ok (), d) := by
  rw [on_query, Volume.checkOpen, hopen, hwritable]
  rfl

theorem writeSlots_on (clusters : List Nat) (number : Nat) (slots : List Bytes) (d : Disk) :
    (writeSlots clusters number slots).on d = (.ok (), d.putSlots clusters number slots) := by
  induction slots generalizing number d with
  | nil => rfl
  | cons slot slots ih =>
    have hstep : (writeSlot clusters number slot).on d =
        (.ok (), d.putSlot clusters number slot) := rfl
    rw [writeSlots, on_bind_ok _ hstep, ih]
    rfl

end Run

/-! ### Room in a directory -/

theorem slotsOf_append_zeros {data : Bytes} {clusterSize : Nat} (hdata : slotSize ∣ data.length)
    (hsize : slotSize ∣ clusterSize) (n : Nat) :
    slotsOf (data ++ Bytes.zeros (n * clusterSize)) =
      slotsOf data ++ List.replicate (n * (clusterSize / slotSize)) zeroSlot := by
  obtain ⟨per, rfl⟩ := hsize
  rw [slotsOf_append _ hdata, Nat.mul_div_cancel_left _ (by decide), Nat.mul_left_comm,
    slotsOf_zeros]

/-- A directory has room after growing by `growth`, and not before. -/
theorem growth_facts {data : Bytes} {clusterSize count : Nat} (hdata : slotSize ∣ data.length)
    (hsize : slotSize ∣ clusterSize) (hpos : 0 < clusterSize) (hcount : 0 < count) :
    (freeRun (data ++ Bytes.zeros (growth data clusterSize count * clusterSize)) count).isSome =
        true ∧ growth data clusterSize count ≤ count ∧
      ∀ m < growth data clusterSize count,
        freeRun (data ++ Bytes.zeros (m * clusterSize)) count = none := by
  have hper : 0 < clusterSize / slotSize := Nat.div_pos (Nat.le_of_dvd hpos hsize) (by decide)
  have hlast : (freeRun (data ++ Bytes.zeros (count * clusterSize)) count).isSome = true := by
    simp only [freeRun]
    rw [slotsOf_append_zeros hdata hsize]
    refine isSome_freeRunFrom hcount (Nat.le_mul_of_pos_right _ hper) _ _ _ ?_
    rw [List.length_append, List.length_replicate, Nat.zero_add]
  rw [growth]
  cases hfind : (List.range count).find? fun n =>
      (freeRun (data ++ Bytes.zeros (n * clusterSize)) count).isSome with
  | none =>
    rw [List.find?_range_eq_none] at hfind
    refine ⟨hlast, Nat.le_refl _, fun m hm => ?_⟩
    simpa using hfind m hm
  | some n =>
    rw [List.find?_range_eq_some] at hfind
    refine ⟨hfind.1, (List.mem_range.1 hfind.2.1).le, fun m hm => ?_⟩
    simpa using hfind.2.2 m hm

end Edit

/-! ### One volume in two states -/

/-- The same volume in two states: what a change never touches is the same. -/
structure Disk.Alike (d d' : Disk) : Prop where
  volume : d'.volume = { d.volume with table := d'.volume.table, free := d'.volume.free,
                                       hint := d'.volume.hint }
  below : d.SameBelow d'

namespace Disk.Alike

variable {d d' d'' : Disk}

theorem refl (d : Disk) : d.Alike d := ⟨rfl, .refl d⟩

theorem geometry (h : d.Alike d') : d'.volume.geometry = d.volume.geometry := by rw [h.volume]

theorem image (h : d.Alike d') : d'.volume.image = d.volume.image := by rw [h.volume]

theorem closed (h : d.Alike d') : d'.volume.closed = d.volume.closed := by rw [h.volume]

theorem readOnly (h : d.Alike d') : d'.volume.readOnly = d.volume.readOnly := by rw [h.volume]

theorem trans (h : d.Alike d') (h' : d'.Alike d'') : d.Alike d'' :=
  ⟨by rw [h'.volume, h.volume], h.below.trans h'.below h.geometry⟩

/-- A change of the image that leaves alone what lies before the clusters. -/
theorem of_below (hvolume : d'.volume = d.volume) (hbelow : d.SameBelow d') : d.Alike d' :=
  ⟨by rw [hvolume], hbelow⟩

/-- A change of the table alone. -/
theorem of_table (d : Disk) (table : ClusterTable) (free hint : Nat) :
    d.Alike { d with volume := { d.volume with table, free, hint } } :=
  ⟨rfl, .refl d⟩

end Disk.Alike

/-! ### Clusters for an entry -/

/-- Clusters of a disk were taken for the body of a record and hold it by now. Nothing else has
changed, but the clusters belong to nobody yet. -/
structure Disk.Supplies (d : Disk) (G : Catalog) (K : Owner → List Nat) (loose : List Nat)
    (up : Nat) (cs : List Nat) (b : Body) (d' : Disk) : Prop where
  holds : d'.Holds G K (cs ++ loose)
  alike : d.Alike d'
  free : d'.volume.free + cs.length = d.volume.free
  read : ∀ o, ∀ x ∈ K o, d'.readCluster x = d.readCluster x
  linked : d'.Linked b.first cs
  ready : d'.Ready G up cs b

/-! ### Growing -/

/-- The chain of a directory goes on with so many more clusters. -/
def Disk.ChainGrows (d d' : Disk) (dir grow : Nat) : Prop :=
  ∃ clusters more, d.HasChain dir clusters ∧ more.length = grow ∧
    d'.HasChain dir (clusters ++ more)

namespace Disk.Holds

variable {d : Disk} {G : Catalog} {K : Owner → List Nat} {loose : List Nat} {dir : Nat} {f : Folder}
  {o : Owner}

/-- One more cluster for a directory: a free one is taken, linked to the last one of the directory,
and filled with zeros. -/
theorem growOnce (h : d.Holds G K loose) (hf : G dir = some f)
    (ho : G.Starts d.volume.geometry.rootCluster o dir) (hfree : 1 ≤ d.volume.free) :
    ∃ y z v, d.volume.allocate 1 = .ok ([y], v) ∧ (K o).getLast? = some z ∧
      ∀ d', d' = Disk.writeCluster ⟨{ v with table := v.table.set z y }, d.content⟩ y [] →
        d'.Holds G (Function.update K o (K o ++ [y])) loose ∧ d.Alike d' ∧
        d'.volume.free = d.volume.free - 1 ∧
        (K o ++ [y]).flatMap d'.readCluster =
          (K o).flatMap d.readCluster ++ Bytes.zeros d.volume.geometry.clusterSize ∧
        ∀ x ∈ loose, d'.volume.table.link x = d.volume.table.link x ∧
          d'.readCluster x = d.readCluster x := by
  have hchain := h.chain_of_starts hf ho
  obtain ⟨found, t, hint, heq, hlen, hsame, hwas, hlinked, hholds⟩ := h.allocate hfree
  obtain ⟨y, rfl⟩ := List.length_eq_one_iff.1 hlen
  obtain ⟨z, hz⟩ : ∃ z, (K o).getLast? = some z := by
    obtain ⟨rest, hrest⟩ := ClusterTable.Chain.exists_cons hchain
    rw [hrest]
    exact ⟨_, List.getLast?_eq_some_getLast (by simp)⟩
  refine ⟨y, z, _, heq, hz, ?_⟩
  rintro d' rfl
  have hend : t.link y = ClusterTable.endOfChain := by
    cases hlinked y [] rfl with
    | single _ _ hend => exact hend
    | cons _ _ rest => exact absurd rfl rest.ne_nil
  have hyin := (hholds.loose_used y (by simp)).1
  have hfit : ([] : Bytes).length ≤ d.volume.geometry.clusterSize := Nat.zero_le _
  have hwrite := hholds.writeCluster (x := y) (by simp) hfit
  have hreads : ∀ x, d.volume.inRange x = true →
      (Disk.writeCluster ⟨{ d.volume with table := t, free := d.volume.free - 1, hint },
        d.content⟩ y []).readCluster x =
      if x = y then Bytes.zeros d.volume.geometry.clusterSize else d.readCluster x :=
    fun x hx => hholds.sound.readCluster_writeCluster hx hyin (Nat.zero_le _)
  have hzero := hreads y hyin
  rw [if_pos rfl] at hzero
  have hgrown := hwrite.grow ho hf hz hend hzero
  have hother : ∀ x, x ∈ K o ∨ x ∈ loose → x ≠ y ∧ d.volume.inRange x = true := by
    rintro x (hx | hx)
    · obtain ⟨hin, hused⟩ := h.owned_used hx
      exact ⟨by rintro rfl; exact hused (hwas _ (by simp)), hin⟩
    · obtain ⟨hin, hused⟩ := h.loose_used x hx
      exact ⟨by rintro rfl; exact hused (hwas _ (by simp)), hin⟩
  have hbelow := hholds.sound.sameBelow_writeCluster hyin hfit
  refine ⟨hgrown, ⟨rfl, hbelow⟩, rfl, ?_, fun x hx => ⟨?_, ?_⟩⟩
  · have hlast := hreads y hyin
    rw [if_pos rfl] at hlast
    rw [List.flatMap_append, List.flatMap_singleton]
    refine congrArg₂ _ (List.flatMap_congr fun x hx => ?_) hlast
    obtain ⟨hne, hin⟩ := hother x (.inl hx)
    exact (hreads x hin).trans (if_neg hne)
  · obtain ⟨hne, -⟩ := hother x (.inr hx)
    have hzx : z ≠ x := by
      rintro rfl
      exact h.apart o z (List.mem_of_getLast? hz) hx
    exact (ClusterTable.link_set_of_ne _ _ hzx).trans (hsame x (by simpa using hne))
  · obtain ⟨hne, hin⟩ := hother x (.inr hx)
    exact (hreads x hin).trans (if_neg hne)

end Disk.Holds

namespace Edit

variable {d : Disk} {G : Catalog} {K : Owner → List Nat} {loose : List Nat} {dir : Nat} {f : Folder}
  {o : Owner}

theorem zeros_append_zeros (m n : Nat) : Bytes.zeros m ++ Bytes.zeros n = Bytes.zeros (m + n) :=
  List.replicate_append_replicate

/-- A directory grows by as many clusters as it needs, if that many are free, and has room then.
Nothing that is loose is touched. -/
theorem findPlace_on {count m limit : Nat} (h : d.Holds G K loose) (hf : G dir = some f)
    (ho : G.Starts d.volume.geometry.rootCluster o dir) (hlimit : m ≤ limit)
    (hfree : m ≤ d.volume.free)
    (hroom : (freeRun ((K o).flatMap d.readCluster ++
      Bytes.zeros (m * d.volume.geometry.clusterSize)) count).isSome = true)
    (hnone : ∀ j < m, freeRun ((K o).flatMap d.readCluster ++
      Bytes.zeros (j * d.volume.geometry.clusterSize)) count = none) :
    ∃ d' K' start, (findPlace count limit (K o) ((K o).flatMap d.readCluster)).on d =
        (.ok (K' o, start), d') ∧
      d'.Holds G K' loose ∧ (∃ more, more.length = m ∧ K' o = K o ++ more) ∧
      freeRun ((K' o).flatMap d'.readCluster) count = some start ∧
      d'.volume.free = d.volume.free - m ∧ d.Alike d' ∧
      ∀ x ∈ loose, d'.volume.table.link x = d.volume.table.link x ∧
        d'.readCluster x = d.readCluster x := by
  have hnil (bs : Bytes) : bs ++ Bytes.zeros (0 * d.volume.geometry.clusterSize) = bs := by
    rw [Nat.zero_mul]
    exact List.append_nil bs
  induction m generalizing d K limit with
  | zero =>
    rw [hnil] at hroom
    obtain ⟨start, hstart⟩ := Option.isSome_iff_exists.1 hroom
    refine ⟨d, K, start, ?_, h, ⟨[], rfl, (List.append_nil _).symm⟩, hstart, rfl, .refl d,
      fun _ _ => ⟨rfl, rfl⟩⟩
    cases limit with
    | zero => rw [findPlace, hstart, on_pure, Option.getD_some]
    | succ limit =>
      rw [findPlace, hstart]
      rfl
  | succ m ih =>
    obtain ⟨limit, rfl⟩ : ∃ n, limit = n + 1 := ⟨limit - 1, by omega⟩
    have hlimit' : m ≤ limit := by omega
    obtain ⟨y, z, v, halloc, hz, hgrow⟩ := h.growOnce hf ho (by omega)
    obtain ⟨hholds, halike, hfree', hread, hloose⟩ := hgrow _ rfl
    set d₁ := Disk.writeCluster ⟨{ v with table := v.table.set z y }, d.content⟩ y [] with hd₁
    have hsize : d₁.volume.geometry.clusterSize = d.volume.geometry.clusterSize := by
      rw [halike.geometry]
    have hself : Function.update K o (K o ++ [y]) o = K o ++ [y] := Function.update_self ..
    have hshift : ∀ j, (Function.update K o (K o ++ [y]) o).flatMap d₁.readCluster ++
        Bytes.zeros (j * d₁.volume.geometry.clusterSize) =
        (K o).flatMap d.readCluster ++ Bytes.zeros ((j + 1) * d.volume.geometry.clusterSize) := by
      intro j
      rw [hself, hread, hsize, List.append_assoc, zeros_append_zeros, Nat.succ_mul,
        Nat.add_comm (j * _)]
    obtain ⟨d', K', start, hrun, hholds', ⟨more, hlen, hK⟩, hstart, hfree'', halike', hloose'⟩ :=
      ih hholds (by rw [halike.geometry]; exact ho) hlimit' (by omega)
        (by rw [hshift]; exact hroom) (fun j hj => by rw [hshift]; exact hnone (j + 1) (by omega))
        (fun bs => by rw [Nat.zero_mul]; exact List.append_nil bs)
    refine ⟨d', K', start, ?_, hholds', ⟨y :: more, congrArg Nat.succ hlen, ?_⟩, hstart, by omega,
      halike.trans halike', fun x hx => ?_⟩
    · have hfirst := hnone 0 (Nat.succ_pos m)
      rw [hnil] at hfirst
      rw [hself, hread] at hrun
      rw [findPlace, hfirst, allocate]
      refine (on_bind_ok _ (onVolume_ok halloc)).trans ?_
      simp only [hz]
      refine (on_bind_ok _ (on_modify _ _)).trans ?_
      refine (on_bind_ok _ (on_modify _ _)).trans ?_
      refine (on_bind_ok _ (on_get _)).trans ?_
      have hsize' : d₁.volume.geometry.clusterSize = d.volume.geometry.clusterSize := hsize
      rw [← hsize'] at hrun
      exact hrun
    · rw [hK, hself, List.append_assoc, List.singleton_append]
    · obtain ⟨hl, hr⟩ := hloose x hx
      obtain ⟨hl', hr'⟩ := hloose' x hx
      exact ⟨hl'.trans hl, hr'.trans hr⟩

/-- The bytes of a directory are whole slots, and they hold the folder. -/
def Shows (data : Bytes) (f : Folder) : Prop :=
  slotSize ∣ data.length ∧ f.Stands (slotsOf data)

theorem contains_parse {data : Bytes} (h : Shows data f) :
    (shortNames (parse data)).contains = f.taken :=
  funext fun short => h.2.contains_shortNames short

/-- The slots of the entry that a body gets under a name. -/
theorem encodeEntry_taken {data : Bytes} (h : Shows data f) (name : String) (b : Body)
    {first : Nat} (hfirst : first < 0x100000000) (size : Int) :
    encodeEntry name (shortNames (parse data)).contains b.attributes.toNat first size =
      (spellingOf name f.taken).bind fun s =>
        if 0 ≤ size ∧ size < 0x100000000 then .ok (s.slots b.attributes first size.toNat)
        else .error .fieldRange := by
  rw [contains_parse h, encodeEntry_eq _ _ _ b.attributes.toNat_lt hfirst, UInt8.ofNat_toNat]

/-- An entry is added, provided that the clusters by which the directory has to grow are free. The
clusters of the entry belong to it then. -/
theorem addEntry_on {cs : List Nat} {name : String} {s : Spelling} {b : Body}
    (h : d.Holds G K (cs ++ loose)) (hopen : d.volume.closed = false) (hf : G dir = some f)
    (ho : G.Starts d.volume.geometry.rootCluster o dir)
    (hspelling : spellingOf name f.taken = .ok s) (hlinked : d.Linked b.first cs)
    (hready : d.Ready G (d.upFrom dir) cs b) (hsize : b.bytes.length < 0x100000000)
    (hfree : growth ((K o).flatMap d.readCluster) d.volume.geometry.clusterSize
      (s.longPart.length + 1) ≤ d.volume.free) :
    ∃ d' K' n f', (addEntry dir name b.attributes b.first b.bytes.length).on d = (.ok (), d') ∧
      f.Adds n ⟨s, b⟩ f' ∧ d'.Holds (G.withFolder dir (d.upFrom dir) f' b) K' loose ∧ d.Alike d' ∧
      d'.volume.free = d.volume.free - growth ((K o).flatMap d.readCluster)
        d.volume.geometry.clusterSize (s.longPart.length + 1) ∧
      ∃ more, more.length = growth ((K o).flatMap d.readCluster) d.volume.geometry.clusterSize
        (s.longPart.length + 1) ∧ d'.HasChain dir (K o ++ more) := by
  have hdirectory := h.directory_eq hopen hf ho
  obtain ⟨hwhole, -, hstands⟩ := h.stands_bytes hf ho
  have hfirst : b.first < 0x100000000 := by
    by_cases hzero : b.first = 0
    · omega
    · have hhigh := (ClusterTable.Chain.head_range (hlinked.hasChain hzero)).2
      have hfew := h.sound.few
      simp only [ClusterTable.endOfChain] at hfew
      omega
  have hwf : Record.WellFormed ⟨s, b⟩ := ⟨wellFormed_of_spellingOf hspelling, hfirst, hsize⟩
  have hcount : (Record.slots ⟨s, b⟩).length = s.longPart.length + 1 := s.length_slots ..
  have hencode : encodeEntry name (shortNames (parse ((K o).flatMap d.readCluster))).contains
      b.attributes.toNat b.first b.bytes.length = .ok (Record.slots ⟨s, b⟩) := by
    rw [encodeEntry_taken ⟨hwhole, hstands⟩ name b hfirst, hspelling, Except.bind,
      if_pos ⟨by omega, by omega⟩]
    rfl
  obtain ⟨hroom, hlimit, hnone⟩ := growth_facts hwhole h.sound.slots h.sound.pos
    (Nat.succ_pos s.longPart.length)
  obtain ⟨d₁, K₁, start, hfind, hholds, ⟨more, hmore, hK⟩, hstart, hfree₁, halike, hloose⟩ :=
    findPlace_on h hf ho hlimit hfree hroom hnone
  have hlast : d₁.volume.last = d.volume.last := by
    rw [Volume.last, Volume.clusters, halike.geometry]
    rfl
  have hroot : d₁.volume.geometry.rootCluster = d.volume.geometry.rootCluster := by
    rw [halike.geometry]
  have ho₁ : G.Starts d₁.volume.geometry.rootCluster o dir := hroot ▸ ho
  obtain ⟨-, hslots, hstands₁⟩ := hholds.stands_bytes hf ho₁
  have hrange : ∀ c ∈ K₁ o, d₁.volume.inRange c = true := fun c hc => (hholds.owned_used hc).1
  have hnodup : (K₁ o).Nodup := (hholds.linked o dir ho₁).nodup hholds.sound
  obtain ⟨hle, hput⟩ := hstands₁.exists_room (Nat.succ_pos _) hstart
  obtain ⟨f', hadds, hstands'⟩ := hput ⟨s, b⟩ hwf hcount (not_taken_of_spellingOf hspelling)
  rw [hslots] at hle hstands'
  obtain ⟨hsound', hvolume', hslots', hframe, hbelow⟩ := hholds.sound.putSlots hrange hnodup start
    (Record.slots ⟨s, b⟩) (by rw [hcount]; exact hle)
    (fun bs hbs => (hwf.of_mem_slots hbs).1.le)
  have hcs : ∀ x ∈ cs, x ∈ cs ++ loose := fun x hx => List.mem_append_left _ hx
  have hup : d₁.upFrom dir = d.upFrom dir := by rw [Disk.upFrom, Disk.upFrom, hroot]
  have hinsert := hholds.insert hf ho₁ hvolume' hsound' hframe hadds (hslots'.symm ▸ hstands')
    (hlinked.congr hlast fun x hx => (hloose x (hcs x hx)).1)
    (hup.symm ▸ hready.congr halike.geometry fun x hx => (hloose x (hcs x hx)).2)
  rw [hup] at hinsert
  have hchain := hholds.chain_of_starts hf ho₁
  refine ⟨_, _, start, f', ?_, hadds, hinsert, ?_, ?_, more, hmore, ?_⟩
  · rw [addEntry]
    refine (on_bind_ok _ ((on_query _ d).trans (congrArg (·, d) hdirectory))).trans ?_
    refine (on_bind_ok _ ((on_query _ d).trans (congrArg (·, d) hencode))).trans ?_
    rw [hcount]
    refine (on_bind_ok _ hfind).trans ?_
    exact writeSlots_on ..
  · exact halike.trans (.of_below hvolume' hbelow)
  · rw [hvolume', hfree₁]
  · rw [Disk.HasChain, hvolume', ← hK]
    exact hchain

/-- An entry is added for a body that clusters were taken for, as long as enough of them were free
before for both. -/
theorem addEntry_supplied {cs : List Nat} {name : String} {s : Spelling} {b : Body} {d₁ : Disk}
    (h : d.Supplies G K loose (d.upFrom dir) cs b d₁) (hopen : d.volume.closed = false)
    (hf : G dir = some f) (ho : G.Starts d.volume.geometry.rootCluster o dir)
    (hspelling : spellingOf name f.taken = .ok s) (hsize : b.bytes.length < 0x100000000)
    (hfree : cs.length + growth ((K o).flatMap d.readCluster) d.volume.geometry.clusterSize
      (s.longPart.length + 1) ≤ d.volume.free) :
    ∃ d' K' n f', (addEntry dir name b.attributes b.first b.bytes.length).on d₁ = (.ok (), d') ∧
      f.Adds n ⟨s, b⟩ f' ∧ d'.Holds (G.withFolder dir (d.upFrom dir) f' b) K' loose ∧ d.Alike d' ∧
      d'.volume.free + (cs.length + growth ((K o).flatMap d.readCluster)
        d.volume.geometry.clusterSize (s.longPart.length + 1)) = d.volume.free ∧
      ∃ more, more.length = growth ((K o).flatMap d.readCluster) d.volume.geometry.clusterSize
        (s.longPart.length + 1) ∧ d'.HasChain dir (K o ++ more) := by
  have hgeometry := h.alike.geometry
  have hup : d₁.upFrom dir = d.upFrom dir := by rw [Disk.upFrom, Disk.upFrom, hgeometry]
  have hdata : (K o).flatMap d₁.readCluster = (K o).flatMap d.readCluster :=
    List.flatMap_congr (h.read o)
  have hcount := h.free
  obtain ⟨d', K', n, f', hadd, hadds, hholds', halike, hfree', more, hmore, hchain⟩ :=
    addEntry_on h.holds (h.alike.closed.trans hopen) hf (hgeometry.symm ▸ ho) hspelling h.linked
      (hup.symm ▸ h.ready) hsize (by rw [hdata, hgeometry]; omega)
  rw [hup] at hholds'
  rw [hdata, hgeometry] at hfree' hmore
  exact ⟨d', K', n, f', hadd, hadds, hholds', h.alike.trans halike, by omega, more, hmore, hchain⟩

end Edit

end BootImage.Fat
