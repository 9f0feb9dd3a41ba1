import BootImage.Proofs.Assembly.Calls

/-!
# Sealed images

Sealing closes the volume and sets a mark. It always can, for the volume of an assembler is only
open while its image can be read. The mark is looked at where a step asks for the volume, as making
a directory and copying a file do: on a sealed image they fail and change nothing. Formatting asks
for no volume. It writes the image whether or not it is sealed, and leaves the mark as it is, so all
that calls can do to a sealed image is what those among them do that format it.

## Main definitions

* `State.marked`: a state with the mark set or not.
* `State.Closed`: the image is sealed, and its volume is not open.

## Main results

* `State.sealed_after_sealImage`: sealing seals.
* `State.volume_after`: calls that open no volume.
* `Call.format_marked`: formatting does not look at the mark.
* `State.sealed_after`: what calls do to a sealed image.
-/

namespace BootImage.Assembly

open Host (Path FileTree)

variable {s : State} {α : Type}

/-- An image that an open volume stands for can be sealed. -/
theorem State.Backed.exists_sealImage (hs : s.Backed) : ∃ s', Yields sealImage s () s' ∧
    s'.assembler = { s.assembler with volume := none, sealed := true } := by
  have hrun := run_sealImage s
  cases hvolume : s.assembler.volume with
  | none =>
    rw [hvolume] at hrun
    exact ⟨_, hrun, rfl⟩
  | some v =>
    rcases hs with hnone | ⟨c, hread⟩
    · cases hnone.symm.trans hvolume
    · obtain ⟨tree, hwrite⟩ := FileTree.write_of_read hread (Fat.Disk.close ⟨v, c⟩).content
      rw [hvolume, hread] at hrun
      simp only [hwrite] at hrun
      exact ⟨_, hrun, rfl⟩

/-- However filling an image ends, it is sealed next. Only then what failed is told, or what was
done. -/
theorem run_complete_of_fill {own suite : List BinaryEntry} {result : Except Failure Unit}
    {s₁ s₂ : State} (hfill : (fill own suite).run.run s = (result, s₁))
    (hseal : Yields Assembly.sealImage s₁ () s₂) :
    (complete own suite).run.run s = match result with
      | .error failure => (.error failure, s₂)
      | .ok _ => tell.run.run s₂ := by
  cases result with
  | error failure =>
    have hcatch := run_tryCatch_error (fun failure => do
      Assembly.sealImage
      throw failure) hfill
    rw [run_bind_ok _ hseal] at hcatch
    exact run_bind_error _ hcatch
  | ok u =>
    have hcatch := run_tryCatch_ok (fun failure => do
      Assembly.sealImage
      throw failure) hfill
    rw [complete, run_bind_ok _ hcatch, run_bind_ok _ hseal]

/-! ### Volumes that are closed -/

/-- Whatever fails on the way, an image that is assembled is sealed in the end. -/
theorem State.Backed.complete (hs : s.Backed) (own suite : List BinaryEntry) :
    ((complete own suite).run.run s).2.assembler.volume = none := by
  have hleads := leads_fill own suite s
  cases hfill : (fill own suite).run.run s with
  | mk result s₁ =>
    rw [hfill] at hleads
    obtain ⟨s₂, hseal, hassembler⟩ := (hleads.backed hs).exists_sealImage
    rw [run_complete_of_fill hfill hseal]
    cases result with
    | error failure => rw [hassembler]
    | ok u => rw [(keeps_tell s₂).volume, hassembler]

/-- A volume that is not open is not open afterwards. -/
def State.Shuts (s s' : State) : Prop :=
  s.assembler.volume = none → s'.assembler.volume = none

instance : IsTrans State State.Shuts :=
  ⟨fun _ _ _ h h' hs => h' (h hs)⟩

theorem shuts_of_keeps {x : Assembly α} (h : Within State.Keeps x) : Within State.Shuts x :=
  h.mono fun _ _ hkeeps hs => hkeeps.volume.trans hs

theorem shuts_assemble (own suite : List BinaryEntry) (missing : List MissingEntry) :
    Within State.Shuts (Assembly.assemble own suite missing) := by
  rw [assemble_eq]
  refine (shuts_of_keeps (keeps_log _)).bind fun _ => ?_
  refine (shuts_of_keeps keeps_createImage).bind fun _ => ?_
  refine (shuts_of_keeps keeps_format).bind fun _ => ?_
  refine Within.bind (shuts_of_keeps ?_) fun _ s hs => State.Backed.complete (.inl hs) own suite
  exact keeps_update (fun _ => rfl) (fun _ => id) fun _ => rfl

/-- A call that puts nothing into the image opens no volume. -/
theorem Call.shuts {call : Call} (hcall : ¬ call.Fills) : Within State.Shuts call.program := by
  cases call with
  | createImage => exact shuts_of_keeps keeps_createImage
  | format => exact shuts_of_keeps (keeps_format.bind fun _ => within_pure _)
  | makeDirectory path => exact absurd trivial hcall
  | copyFile source dest => exact absurd trivial hcall
  | sealImage =>
    intro s hs
    obtain ⟨s', hseal, hassembler⟩ := (show s.Backed from .inl hs).exists_sealImage
    rw [Call.program, hseal, hassembler]
  | assemble own suite missing =>
    exact (shuts_assemble own suite missing).bind fun _ => shuts_of_keeps (within_pure _)

/-- Calls that put nothing into the image leave the volume closed. -/
theorem State.volume_after (hs : s.assembler.volume = none) {calls : List Call}
    (hcalls : ∀ call ∈ calls, ¬ call.Fills) : (s.after calls).assembler.volume = none := by
  induction calls generalizing s with
  | nil => exact hs
  | cons call calls ih =>
    rw [List.forall_mem_cons] at hcalls
    exact ih (Call.shuts hcalls.1 s hs) hcalls.2

/-! ### Formatting -/

/-- The state with the mark of a sealed image set or not. -/
def State.marked (s : State) (sealed : Bool) : State :=
  { s with assembler := { s.assembler with sealed } }

theorem State.marked_marked (s : State) (sealed sealed' : Bool) :
    (s.marked sealed).marked sealed' = s.marked sealed' :=
  rfl

/-- Two states are the same but for a change of the assembler. -/
def State.Maps (f : Assembler → Assembler) (s s' : State) : Prop :=
  s' = { s with assembler := f s.assembler }

section Maps

variable {f : Assembler → Assembler}

theorem maps_session (f : Assembler → Assembler) (b : Build α) :
    Respects (State.Maps f) (session b) := by
  rintro s _ rfl
  exact ⟨_, _, _, run_session b s, run_session b ⟨f s.assembler, s.session⟩, rfl⟩

theorem maps_update {g : Assembler → Assembler} (hfg : ∀ x, g (f x) = f (g x)) :
    Respects (State.Maps f) (update g) := by
  rintro s _ rfl
  refine ⟨.ok (), ⟨g s.assembler, s.session⟩, ⟨g (f s.assembler), s.session⟩, rfl, rfl, ?_⟩
  rw [State.Maps, hfg]

/-- Formatting does not look at what a change of the assembler concerns, if this is neither the
image nor the geometry that is asked for, and it changes nothing of it. -/
theorem maps_format (himage : ∀ x, (f x).image = x.image)
    (hsectors : ∀ x, (f x).sectorsPerCluster = x.sectorsPerCluster)
    (hdone : ∀ x g, { f x with formatted := true, report := { (f x).report with geometry := g } } =
      f { x with formatted := true, report := { x.report with geometry := g } }) :
    Respects (State.Maps f) format := by
  refine Respects.read_bind (g := State.assembler) (fun _ => rfl) fun s s' hmaps => ⟨?_, ?_⟩
  · refine (maps_session f _).bind fun g => ?_
    refine Respects.bind (maps_update fun x => hdone x g) fun _ => ?_
    exact (maps_session f _).bind fun _ => respects_pure g
  · rw [hmaps]
    simp only [himage, hsectors]

end Maps

/-- Two states are the same but for the mark, which is set or not in the second. -/
def State.Marks (sealed : Bool) (s s' : State) : Prop :=
  s' = s.marked sealed

theorem marks_format (sealed : Bool) : Respects (State.Marks sealed) format :=
  maps_format (f := fun x => { x with sealed }) (fun _ => rfl) (fun _ => rfl) fun _ _ => rfl

/-- Formatting an image does not look at the mark, and leaves it as it is. -/
theorem Call.format_marked (s : State) (sealed : Bool) : Call.format.on (s.marked sealed) =
    ((Call.format.on s).1, (Call.format.on s).2.marked sealed) := by
  obtain ⟨result, t, t', hs, hs', rfl⟩ :=
    (marks_format sealed).bind (fun _ => respects_pure ()) s (s.marked sealed) rfl
  exact hs'.trans (by rw [Call.on, Call.program, hs])

/-! ### Calls on a sealed image -/

/-- The image is sealed, and its volume is not open. -/
structure State.Closed (s : State) : Prop where
  sealed : s.assembler.sealed = true
  volume : s.assembler.volume = none

theorem State.Closed.marked (h : s.Closed) : s.marked true = s := by
  rw [State.marked, ← h.sealed]

/-- What would put something into a sealed image fails, and changes nothing. -/
theorem Call.on_of_fills {call : Call} (hcall : call.Fills) (hs : s.assembler.sealed = true) :
    call.on s = (.error s.sealedFailure, s) := by
  cases call with
  | makeDirectory path => exact run_openVolume_bind _ hs
  | copyFile source dest => exact run_bind_error _ (run_openVolume_bind _ hs)
  | _ => exact hcall.elim

theorem State.Closed.sealImage (h : s.Closed) : Call.sealImage.on s = (.ok (), s) := by
  have hrun := run_sealImage s
  rw [h.volume] at hrun
  have hstate :
      { s with assembler := { s.assembler with volume := none, sealed := true } } = s := by
    rw [← h.volume, ← h.sealed]
  exact hrun.trans (congrArg (Prod.mk (Except.ok ())) hstate)

theorem State.Closed.format (h : s.Closed) : (Call.format.on s).2.Closed := by
  refine ⟨?_, ?_⟩
  · have hmarked := Call.format_marked s true
    rw [h.marked] at hmarked
    rw [hmarked]
    rfl
  · exact ((keeps_format.bind fun _ => within_pure ()) s).volume.trans h.volume

/-- A call that does not start a new image leaves a sealed one sealed, and if it does not format it,
all as it is. -/
theorem State.Closed.call (h : s.Closed) {call : Call} (hcall : ¬ call.Starts) :
    (call.on s).2.Closed ∧ (call.formats = false → (call.on s).2 = s) := by
  cases call with
  | createImage => exact absurd trivial hcall
  | assemble own suite missing => exact absurd trivial hcall
  | format => exact ⟨h.format, fun hformats => by cases hformats⟩
  | makeDirectory path =>
    rw [Call.on_of_fills (show (Call.makeDirectory path).Fills from trivial) h.sealed]
    exact ⟨h, fun _ => rfl⟩
  | copyFile source dest =>
    rw [Call.on_of_fills (show (Call.copyFile source dest).Fills from trivial) h.sealed]
    exact ⟨h, fun _ => rfl⟩
  | sealImage =>
    rw [h.sealImage]
    exact ⟨h, fun _ => rfl⟩

/-- Calls leave a sealed image sealed, and do to it what those among them do that format it. -/
theorem State.Closed.after (h : s.Closed) {calls : List Call}
    (hcalls : ∀ call ∈ calls, ¬ call.Starts) :
    (s.after calls).Closed ∧ s.after calls = s.after (calls.filter Call.formats) := by
  induction calls generalizing s with
  | nil => exact ⟨h, rfl⟩
  | cons call calls ih =>
    rw [List.forall_mem_cons] at hcalls
    obtain ⟨hclosed, hkeeps⟩ := h.call hcalls.1
    obtain ⟨hafter, hfilter⟩ := ih hclosed hcalls.2
    refine ⟨hafter, ?_⟩
    cases hformats : call.formats with
    | true =>
      rw [List.filter_cons_of_pos hformats]
      exact hfilter
    | false =>
      rw [List.filter_cons_of_neg (by simp [hformats])]
      refine hfilter.trans ?_
      rw [hkeeps hformats]

/-- The image of an assembler is sealed only while its volume is not open. -/
theorem State.closed_after {x : Assembler} (hx : x.anew = x) (t : Session) {calls : List Call}
    (hsealed : (State.after ⟨x, t⟩ calls).assembler.sealed = true) :
    (State.after ⟨x, t⟩ calls).Closed := by
  refine ⟨hsealed, (State.leads_after ⟨x, t⟩ calls).closed (fun _ => ?_) hsealed⟩
  rw [← hx]
  rfl

/-- A sealed image takes nothing more, but it can be formatted. Until a new image is started, every
call that makes a directory or copies a file fails and changes nothing, and the calls together do
what those among them do that format the image: without one, nothing changes. Each of those does
what it would do if the image were not sealed. -/
theorem State.sealed_after {x : Assembler} (hx : x.anew = x) (t : Session) {calls more : List Call}
    (hsealed : (State.after ⟨x, t⟩ calls).assembler.sealed = true)
    (hmore : ∀ call ∈ more, ¬ call.Starts) :
    (∀ done call rest, more = done ++ call :: rest → ∀ s, s = State.after ⟨x, t⟩ (calls ++ done) →
      (call.Fills → call.on s = (.error ⟨.image (.sealed (toString x.image)), none⟩, s)) ∧
      (call.formats = true → call.on s =
        ((call.on (s.marked false)).1, (call.on (s.marked false)).2.marked true))) ∧
    (State.after ⟨x, t⟩ (calls ++ more)).assembler.sealed = true ∧
    State.after ⟨x, t⟩ (calls ++ more) =
      State.after ⟨x, t⟩ (calls ++ more.filter Call.formats) := by
  have hclosed := State.closed_after hx t hsealed
  have happend : ∀ l, State.after ⟨x, t⟩ (calls ++ l) = (State.after ⟨x, t⟩ calls).after l :=
    fun l => List.foldl_append
  refine ⟨?_, ?_, ?_⟩
  · rintro done call rest rfl s rfl
    have hs : (State.after ⟨x, t⟩ (calls ++ done)).Closed := by
      rw [happend]
      exact (hclosed.after fun call hcall => hmore call (List.mem_append_left _ hcall)).1
    refine ⟨fun hfills => ?_, fun hformats => ?_⟩
    · have hanew := (State.leads_after ⟨x, t⟩ (calls ++ done)).anew
      rw [Call.on_of_fills hfills hs.sealed, State.sealedFailure, image_of_anew hanew]
    · cases call with
      | format =>
        have hformat := Call.format_marked ((State.after ⟨x, t⟩ (calls ++ done)).marked false) true
        rwa [State.marked_marked, hs.marked] at hformat
      | _ => cases hformats
  · rw [happend]
    exact (hclosed.after hmore).1.sealed
  · rw [happend, happend]
    exact (hclosed.after hmore).2

/-- Sealing seals, whatever was called before. -/
theorem State.sealed_after_sealImage {x : Assembler} (hx : x.anew = x) (t : Session)
    (calls : List Call) :
    (State.after ⟨x, t⟩ (calls ++ [.sealImage])).assembler.sealed = true := by
  have hstart : State.Backed ⟨x, t⟩ := by
    refine .inl ?_
    rw [← hx]
    rfl
  obtain ⟨s', hseal, hassembler⟩ :=
    ((State.leads_after ⟨x, t⟩ calls).backed hstart).exists_sealImage
  have hstate : State.after ⟨x, t⟩ (calls ++ [.sealImage]) = s' :=
    List.foldl_append.trans (congrArg Prod.snd hseal)
  rw [hstate, hassembler]

/-- An image with a directory is sealed. Then a directory is made, a file is copied, and the image
is formatted. -/
theorem exists_sealed_after : ∃ (x : Assembler) (t : Session) (calls more : List Call),
    x.anew = x ∧ (State.after ⟨x, t⟩ calls).assembler.sealed = true ∧
    (∀ call ∈ more, ¬ call.Starts) ∧
    State.after ⟨x, t⟩ (calls ++ more) = State.after ⟨x, t⟩ (calls ++ [.format]) := by
  have hsealed := State.sealed_after_sealImage (x := { image := ⟨"", ["fs.img"]⟩ }) rfl
    { tree := .empty [], clock := "", searchPath := "" }
    [.createImage, .format, .makeDirectory "/bin"]
  have hmore : ∀ call ∈ [Call.makeDirectory "/tmp", .copyFile ⟨"", ["sh"]⟩ "/bin/sh", .format],
      ¬ call.Starts := by
    simp [Call.Starts]
  obtain ⟨-, -, hafter⟩ := State.sealed_after rfl _ hsealed hmore
  exact ⟨_, _, _, _, rfl, hsealed, hmore, hafter⟩

end BootImage.Assembly
