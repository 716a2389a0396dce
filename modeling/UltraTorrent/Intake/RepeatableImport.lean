import UltraTorrent.Intake.ImportStage

/-! Importing is repeatable as long as what an earlier attempt left is recognised by its inode
number: files are linked and not copied before an attempt is repeated, and inode numbers do not
coincide across devices. -/
namespace UltraTorrent.Intake.RepeatableImport

open Library Library.EcmaScript Library.FileTree Library.Interleaving Placement ImportStage

variable {β : Type*}

/-! ### What should hold -/

/-- The payload is files, and they are there. -/
def Payload (plan : List Target) (disk : Disk β) : Prop :=
  ∀ t ∈ plan, ∃ id bytes, disk.entries t.source = some (.file id) ∧ disk.contents id = some bytes

/-- What stands at a target's destination has the content its source had to begin with. -/
def Placed (start disk : Disk β) (t : Target) : Prop :=
  ∃ source id bytes, start.entries t.source = some (.file source) ∧
    start.contents source = some bytes ∧ stat disk.entries t.destination = some id ∧
    disk.contents id = some bytes

/-- Nothing that this job has placed is set aside. -/
def KeepsOwn (log : List Happening) : Prop :=
  ∀ source target own, .setAside source target own ∈ log → own = []

/-- A target counts as present only where its destination holds that very source. -/
def PresentIsSource (log : List Happening) : Prop :=
  ∀ destination existing source, .present destination existing source ∈ log → existing = source

structure ImportsOnce (plan : List Target) (start : Disk β) (s : Storage β) (phase : Phase) : Prop where
  keepsOwn : KeepsOwn s.log
  presentIsSource : PresentIsSource s.log
  placed : ∀ tally message, phase = .imported tally message → ∀ t ∈ plan, Placed start s.disk t

/-- An attempt starts only where no copy of an earlier one is left. A source that its destination
already holds can be read, and an inode number is met only on one device. What is renamed to free
a destination is no source, nothing that the destinations before it in the plan lead to, and no
directory of theirs. No download client moves the files by itself. -/
def Recognisable (plan : List Target) (s : Storage β) : Phase → Prop
  | .idle => s.copied = []
  | .comparing _ t _ existing source =>
    (source = none → stat s.disk.entries t.source ≠ some existing) ∧
      ∀ id ∈ source, id.inode = existing.inode → id.device = existing.device
  | .sweeping a t _ ((name, newName) :: _) =>
    ∀ x ∈ [t.destination.dropLast ++ [name], t.destination.dropLast ++ [newName]],
      (∀ u ∈ plan, ¬ x <+: u.source) ∧
        ∀ u ∈ a.done, ∀ q ∈ statChain s.disk.entries u.destination, ¬ x <+: q
  | .relocating _ _ _ => False
  | _ => True

instance (plan : List Target) (s : Storage β) : (phase : Phase) → Decidable (Recognisable plan s phase)
  | .idle => inferInstanceAs (Decidable (s.copied = []))
  | .comparing _ t _ existing source =>
    inferInstanceAs (Decidable ((source = none → stat s.disk.entries t.source ≠ some existing) ∧
      ∀ id ∈ source, id.inode = existing.inode → id.device = existing.device))
  | .sweeping a t _ ((name, newName) :: _) =>
    inferInstanceAs (Decidable (∀ x ∈ [t.destination.dropLast ++ [name],
      t.destination.dropLast ++ [newName]], (∀ u ∈ plan, ¬ x <+: u.source) ∧
        ∀ u ∈ a.done, ∀ q ∈ statChain s.disk.entries u.destination, ¬ x <+: q))
  | .relocating _ _ _ => inferInstanceAs (Decidable False)
  | .sweeping _ _ _ [] | .quarantined _ | .looking _ _ | .preparing _ _ _ | .placing _ _ _ _ _
  | .copying _ _ _ _ _ | .closing _ | .imported _ _ => inferInstanceAs (Decidable True)

/-! ### The invariant -/

def Intact (start disk : Disk β) (t : Target) : Prop :=
  ∃ id bytes, start.entries t.source = some (.file id) ∧ start.contents id = some bytes ∧
    disk.entries t.source = some (.file id) ∧ disk.contents id = some bytes

/-- The destination holds the source itself. -/
def Settled (disk : Disk β) (t : Target) : Prop :=
  ∃ id, disk.entries t.source = some (.file id) ∧ stat disk.entries t.destination = some id

/-- The destination holds the content, in a file other than the one being written. -/
def Held (start disk : Disk β) (writing : Option (Path × FileId)) (t : Target) : Prop :=
  ∃ source id bytes, start.entries t.source = some (.file source) ∧
    start.contents source = some bytes ∧ stat disk.entries t.destination = some id ∧
    disk.contents id = some bytes ∧ ∀ f ∈ writing, f.2 ≠ id

/-- Placed by a link, and what is before it in the plan is in place too. -/
def Anchored (plan : List Target) (disk : Disk β) (p : Path) : Prop :=
  ∃ before t after, plan = before ++ t :: after ∧ t.destination = p ∧
    ∀ u ∈ before ++ [t], Settled disk u

/-- What an attempt has done so far. -/
structure Running (plan : List Target) (start : Disk β) (s : Storage β) (done : List Target)
    (writing : Option (Path × FileId)) : Prop where
  held : ∀ u ∈ done, Held start s.disk writing u
  kind : ∀ u ∈ done, Settled s.disk u ∨ u.destination ∈ s.copied
  own : ∀ p ∈ s.placed, (∃ f ∈ writing, f.1 = p) ∨ (∃ u ∈ done, u.destination = p) ∨
    Anchored plan s.disk p

def PhaseInv (plan : List Target) (start : Disk β) (s : Storage β) : Phase → Prop
  | .idle => s.copied = [] → ∀ p ∈ s.placed, Anchored plan s.disk p
  | .quarantined _ => True
  | .looking a todo => a.done ++ todo = plan ∧ Running plan start s a.done none
  | .comparing a t rest existing source =>
    a.done ++ t :: rest = plan ∧ Running plan start s a.done none ∧
      stat s.disk.entries t.destination = some existing ∧
        ∀ id ∈ source, stat s.disk.entries t.source = some id
  | .sweeping a t rest _ =>
    a.done ++ t :: rest = plan ∧ Running plan start s a.done none ∧
      ∀ p ∈ s.placed, ∃ u ∈ a.done, u.destination = p
  | .preparing a t rest | .relocating a t rest =>
    a.done ++ t :: rest = plan ∧ Running plan start s a.done none
  | .placing a t rest strategy _ =>
    a.done ++ t :: rest = plan ∧ Running plan start s a.done none ∧ strategy ≠ .move
  | .copying a t rest id _ =>
    a.done ++ t :: rest = plan ∧ Running plan start s a.done (some (t.destination, id)) ∧
      s.disk.entries t.destination = some (.file id) ∧ t.destination ∈ s.copied ∧
        ∀ u ∈ plan, s.disk.entries u.source ≠ some (.file id)
  | .closing _ | .imported _ _ => Running plan start s plan none

structure Inv (plan : List Target) (start : Disk β) (s : Storage β) (phase : Phase) : Prop where
  intact : ∀ t ∈ plan, Intact start s.disk t
  keepsOwn : KeepsOwn s.log
  presentIsSource : PresentIsSource s.log
  phase : PhaseInv plan start s phase

variable {plan done rest : List Target} {start disk disk' : Disk β} {s s' : Storage β} {t : Target}
  {p : Path} {id : FileId} {writing : Option (Path × FileId)} {U : Target → Prop}

/-! ### Frames -/

/-- The sources of the plan are left alone, and so is what the destinations of some targets
lead to. -/
structure Frame (plan : List Target) (U : Target → Prop) (disk disk' : Disk β) : Prop where
  source : ∀ t ∈ plan, ∀ id bytes, disk.entries t.source = some (.file id) →
    disk.contents id = some bytes →
      disk'.entries t.source = some (.file id) ∧ disk'.contents id = some bytes
  chain : ∀ u, U u → ∀ q ∈ statChain disk.entries u.destination, disk'.entries q = disk.entries q
  contents : ∀ u, U u → ∀ id bytes, stat disk.entries u.destination = some id →
    disk.contents id = some bytes → disk'.contents id = some bytes

theorem Frame.stat_eq (h : Frame plan U disk disk') (hU : U t) :
    stat disk'.entries t.destination = stat disk.entries t.destination :=
  (follow_congr (h.chain t hU)).1

theorem Frame.intact (h : Frame plan U disk disk') (ht : t ∈ plan) (hintact : Intact start disk t) :
    Intact start disk' t := by
  obtain ⟨id, bytes, hstart, hbytes, hentry, hcontent⟩ := hintact
  obtain ⟨hentry', hcontent'⟩ := h.source t ht id bytes hentry hcontent
  exact ⟨id, bytes, hstart, hbytes, hentry', hcontent'⟩

theorem Frame.settled (h : Frame plan U disk disk') (ht : t ∈ plan) (hU : U t)
    (hintact : Intact start disk t) (hsettled : Settled disk t) : Settled disk' t := by
  obtain ⟨id, bytes, -, -, hentry, hcontent⟩ := hintact
  obtain ⟨id', hentry', hstat⟩ := hsettled
  obtain rfl : id' = id := by
    rw [hentry] at hentry'
    cases hentry'
    rfl
  exact ⟨id', (h.source t ht id' bytes hentry hcontent).1, (h.stat_eq hU).trans hstat⟩

theorem Frame.held {writing' : Option (Path × FileId)} (h : Frame plan U disk disk') (hU : U t)
    (hfresh : ∀ f ∈ writing', disk.contents f.2 = none) (hheld : Held start disk writing t) :
    Held start disk' writing' t := by
  obtain ⟨source, id, bytes, hstart, hbytes, hstat, hcontent, -⟩ := hheld
  refine ⟨source, id, bytes, hstart, hbytes, (h.stat_eq hU).trans hstat,
    h.contents t hU id bytes hstat hcontent, fun f hf heq => ?_⟩
  have hnone := hfresh f hf
  rw [heq, hcontent] at hnone
  cases hnone

theorem Frame.anchored (h : Frame plan U disk disk') (hintact : ∀ t ∈ plan, Intact start disk t)
    (hU : ∀ u ∈ plan, Settled disk u → U u) (hanchored : Anchored plan disk p) :
    Anchored plan disk' p := by
  obtain ⟨before, t, after, rfl, hp, hsettled⟩ := hanchored
  refine ⟨before, t, after, rfl, hp, fun u hu => ?_⟩
  have hmem : u ∈ before ++ t :: after := by
    rw [List.append_cons]
    exact List.mem_append_left _ hu
  exact h.settled hmem (hU u hmem (hsettled u hu)) (hintact u hmem) (hsettled u hu)

theorem Settled.isSome (h : Settled disk t) : (stat disk.entries t.destination).isSome = true := by
  obtain ⟨id, -, hstat⟩ := h
  rw [hstat]
  rfl

theorem Held.isSome (h : Held start disk writing t) :
    (stat disk.entries t.destination).isSome = true := by
  obtain ⟨_, id, _, -, -, hstat, -⟩ := h
  rw [hstat]
  rfl

/-- A file put where nothing stood is on nobody's way. -/
theorem frame_create (plan : List Target) (content : Option β) (isCopy : Bool) (hfree : s.disk.entries p = none)
    (hnew : content = none ∨ s.disk.contents id = none) :
    Frame plan (fun u => (stat s.disk.entries u.destination).isSome = true) s.disk
      (s.create p id content isCopy).disk := by
  have hcontents : ∀ id' bytes, s.disk.contents id' = some bytes →
      (s.create p id content isCopy).disk.contents id' = some bytes := by
    intro id' bytes hbytes
    cases content with
    | none => exact hbytes
    | some bytes' =>
      have hne : id' ≠ id := by
        rintro rfl
        rw [hnew.resolve_left (Option.some_ne_none _)] at hbytes
        cases hbytes
      exact (Function.update_of_ne hne _ _).trans hbytes
  have hentries : ∀ q, (s.disk.entries q).isSome = true →
      (s.create p id content isCopy).disk.entries q = s.disk.entries q := by
    intro q hq
    refine put_of_ne ?_
    rintro rfl
    rw [hfree] at hq
    cases hq
  refine ⟨fun t _ id' bytes hentry hbytes => ⟨?_, hcontents id' bytes hbytes⟩,
    fun u hu q hq => hentries q ?_, fun u _ id' bytes _ hbytes => hcontents id' bytes hbytes⟩
  · rw [hentries t.source (by rw [hentry]; rfl), hentry]
  · obtain ⟨id', hstat⟩ := Option.isSome_iff_exists.1 hu
    exact isSome_of_mem_chain hstat hq

theorem frame_mkdirs (plan : List Target) (disk : Disk β) (p : Path) (nodes : Path → Entry) :
    Frame plan (fun u => (stat disk.entries u.destination).isSome = true) disk
      { disk with entries := mkdirs disk.entries p nodes } := by
  refine ⟨fun t _ id bytes hentry hbytes => ⟨mkdirs_of_some hentry, hbytes⟩, fun u hu q hq => ?_,
    fun u _ id bytes _ hbytes => hbytes⟩
  obtain ⟨id, hstat⟩ := Option.isSome_iff_exists.1 hu
  obtain ⟨entry, hentry⟩ := Option.isSome_iff_exists.1 (isSome_of_mem_chain hstat hq)
  exact (mkdirs_of_some hentry).trans hentry.symm

theorem frame_rename {source target : Path}
    (hsources : ∀ x ∈ [source, target], ∀ u ∈ plan, ¬ x <+: u.source)
    (hchain : ∀ x ∈ [source, target], ∀ u, U u → ∀ q ∈ statChain disk.entries u.destination,
      ¬ x <+: q) :
    Frame plan U disk { disk with entries := rename disk.entries source target } := by
  refine ⟨fun t ht id bytes hentry hbytes => ⟨?_, hbytes⟩, fun u hu q hq => ?_,
    fun u _ id bytes _ hbytes => hbytes⟩
  · exact (rename_apply (hsources source (by simp) t ht) (hsources target (by simp) t ht)).trans hentry
  · exact rename_apply (hchain source (by simp) u hu q hq) (hchain target (by simp) u hu q hq)

theorem frame_write (bytes : β) (hsources : ∀ u ∈ plan, disk.entries u.source ≠ some (.file id)) :
    Frame plan (fun u => stat disk.entries u.destination ≠ some id) disk
      { disk with contents := Function.update disk.contents id (some bytes) } := by
  refine ⟨fun t ht id' bytes' hentry hbytes => ⟨hentry, ?_⟩, fun u _ q _ => rfl,
    fun u hu id' bytes' hstat hbytes => ?_⟩
  · have hne : id' ≠ id := by
      rintro rfl
      exact hsources t ht hentry
    exact (Function.update_of_ne hne _ _).trans hbytes
  · have hne : id' ≠ id := by
      rintro rfl
      exact hu hstat
    exact (Function.update_of_ne hne _ _).trans hbytes

theorem frame_discard (hfile : s.disk.entries p = some (.file id))
    (hsources : ∀ u ∈ plan, s.disk.entries u.source ≠ some (.file id)) :
    Frame plan (fun u => ∃ id', stat s.disk.entries u.destination = some id' ∧ id' ≠ id) s.disk
      (s.discard p id).disk := by
  refine ⟨fun t ht id' bytes hentry hbytes => ⟨?_, ?_⟩, fun u hu q hq => ?_,
    fun u hu id' bytes hstat hbytes => ?_⟩
  · have hne : t.source ≠ p := by
      rintro rfl
      exact hsources t ht hfile
    exact (unlink_of_ne hne).trans hentry
  · have hne : id' ≠ id := by
      rintro rfl
      exact hsources t ht hentry
    exact (Function.update_of_ne hne _ _).trans hbytes
  · obtain ⟨id', hstat, hne⟩ := hu
    refine unlink_of_ne ?_
    rintro rfl
    rw [stat, follow_of_mem_chain hq hfile] at hstat
    exact hne (Option.some.inj hstat).symm
  · obtain ⟨id'', hstat', hne⟩ := hu
    rw [hstat] at hstat'
    cases hstat'
    exact (Function.update_of_ne hne _ _).trans hbytes

/-! ### An attempt under way -/

theorem Running.frame {writing' : Option (Path × FileId)} (h : Running plan start s done writing)
    (hframe : Frame plan U s.disk s'.disk) (hintact : ∀ t ∈ plan, Intact start s.disk t)
    (hdone : ∀ u ∈ done, u ∈ plan ∧ U u)
    (hcopied : ∀ u ∈ done, u.destination ∈ s.copied → u.destination ∈ s'.copied)
    (hfresh : ∀ f ∈ writing', s.disk.contents f.2 = none)
    (hown : ∀ p ∈ s'.placed, (∃ f ∈ writing', f.1 = p) ∨ (∃ u ∈ done, u.destination = p) ∨
      Anchored plan s'.disk p) : Running plan start s' done writing' where
  held u hu := hframe.held (hdone u hu).2 hfresh (h.held u hu)
  kind u hu := by
    rcases h.kind u hu with hsettled | hcopy
    · obtain ⟨hmem, hU⟩ := hdone u hu
      exact .inl (hframe.settled hmem hU (hintact u hmem) hsettled)
    · exact .inr (hcopied u hu hcopy)
  own := hown

/-- One target more. -/
theorem Running.advance (h : Running plan start s done writing)
    (hframe : Frame plan U s.disk s'.disk) (hintact : ∀ t ∈ plan, Intact start s.disk t)
    (hplan : done ++ t :: rest = plan) (hdone : ∀ u ∈ done, U u)
    (hsettled : ∀ u ∈ plan, Settled s.disk u → U u) (hcopied : ∀ p ∈ s.copied, p ∈ s'.copied)
    (hplaced : ∀ p ∈ s'.placed, p = t.destination ∨ p ∈ s.placed)
    (hwriting : ∀ f ∈ writing, f.1 = t.destination) (hheld : Held start s'.disk none t)
    (hkind : Settled s'.disk t ∨ t.destination ∈ s'.copied) :
    Running plan start s' (done ++ [t]) none where
  held u hu := by
    rcases List.mem_append.1 hu with hu | hu
    · exact hframe.held (hdone u hu) (fun f hf => by cases hf) (h.held u hu)
    · rw [List.mem_singleton.1 hu]
      exact hheld
  kind u hu := by
    rcases List.mem_append.1 hu with hu | hu
    · have hmem : u ∈ plan := hplan ▸ List.mem_append_left _ hu
      rcases h.kind u hu with hsettled' | hcopy
      · exact .inl (hframe.settled hmem (hdone u hu) (hintact u hmem) hsettled')
      · exact .inr (hcopied _ hcopy)
    · rw [List.mem_singleton.1 hu]
      exact hkind
  own p hp := by
    rcases hplaced p hp with rfl | hp
    · exact .inr (.inl ⟨t, by simp, rfl⟩)
    · rcases h.own p hp with ⟨f, hf, rfl⟩ | ⟨u, hu, rfl⟩ | hanchored
      · exact .inr (.inl ⟨t, by simp, (hwriting f hf).symm⟩)
      · exact .inr (.inl ⟨u, List.mem_append_left _ hu, rfl⟩)
      · exact .inr (.inr (hframe.anchored hintact hsettled hanchored))

theorem Running.idle (h : Running plan start s done none) (hplan : done ++ rest = plan)
    (hcopied : s.copied = []) (hp : p ∈ s.placed) : Anchored plan s.disk p := by
  rcases h.own p hp with ⟨f, hf, -⟩ | ⟨u, hu, rfl⟩ | hanchored
  · cases hf
  · obtain ⟨before, after, rfl⟩ := List.append_of_mem hu
    refine ⟨before, u, after ++ rest, by simpa using hplan.symm, rfl, fun v hv => ?_⟩
    have hmem : v ∈ before ++ u :: after := by
      rw [List.append_cons]
      exact List.mem_append_left _ hv
    refine (h.kind v hmem).resolve_right ?_
    rw [hcopied]
    exact List.not_mem_nil
  · exact hanchored

theorem Intact.held (h : Intact start s.disk t) (hsettled : Settled s.disk t) :
    Held start s.disk none t := by
  obtain ⟨source, bytes, hstart, hbytes, hentry, hcontent⟩ := h
  obtain ⟨id, hentry', hstat⟩ := hsettled
  rw [hentry] at hentry'
  cases hentry'
  exact ⟨source, source, bytes, hstart, hbytes, hstat, hcontent,
    fun f hf => by cases hf⟩

theorem Anchored.mem_done {t : Target} (h : Anchored plan disk p) (hplan : done ++ t :: rest = plan)
    (hunsettled : ¬ Settled disk t) : ∃ u ∈ done, u.destination = p := by
  obtain ⟨before, u, after, hsplit, hp, hsettled⟩ := h
  refine ⟨u, ?_, hp⟩
  have hnot : t ∉ before ++ [u] := fun ht => hunsettled (hsettled t ht)
  have hprefix : before ++ [u] <+: done ++ t :: rest :=
    ⟨after, by rw [hplan, hsplit, List.append_assoc, List.singleton_append]⟩
  have hprefix' : done ++ [t] <+: done ++ t :: rest := ⟨rest, by simp⟩
  rcases List.prefix_or_prefix_of_prefix hprefix hprefix' with hle | hle
  · rcases List.prefix_concat_iff.1 hle with heq | hle
    · exact absurd (heq ▸ by simp) hnot
    · exact hle.subset (by simp)
  · exact absurd (hle.subset (by simp)) hnot

theorem Frame.refl (plan : List Target) (disk : Disk β) : Frame plan (fun _ => True) disk disk :=
  ⟨fun _ _ _ _ hentry hbytes => ⟨hentry, hbytes⟩, fun _ _ _ _ => rfl, fun _ _ _ _ _ hbytes => hbytes⟩

theorem Intact.source {t : Target} {source : FileId} (h : Intact start disk t)
    (hsource : disk.entries t.source = some (.file source)) :
    ∃ bytes, disk.contents source = some bytes ∧ start.entries t.source = some (.file source) ∧
      start.contents source = some bytes := by
  obtain ⟨id, bytes, hstart, hbytes, hentry, hcontent⟩ := h
  rw [hsource] at hentry
  cases hentry
  exact ⟨bytes, hcontent, hstart, hbytes⟩

theorem Intact.read {bytes : β} (h : Intact start disk t)
    (hread : (stat disk.entries t.source).bind disk.contents = some bytes) :
    ∃ source, disk.entries t.source = some (.file source) ∧
      start.entries t.source = some (.file source) ∧ start.contents source = some bytes := by
  obtain ⟨id, bytes', hstart, hbytes, hentry, hcontent⟩ := h
  rw [stat_file hentry, Option.bind_some, hcontent] at hread
  cases hread
  exact ⟨id, hentry, hstart, hbytes⟩

theorem ne_source_of_new (hintact : ∀ t ∈ plan, Intact start disk t) (hnew : disk.contents id = none) :
    ∀ u ∈ plan, disk.entries u.source ≠ some (.file id) := by
  intro u hu hentry
  obtain ⟨bytes, hbytes, -, -⟩ := (hintact u hu).source hentry
  rw [hnew] at hbytes
  cases hbytes

/-! ### Steps -/

variable {host : Host} {job : ImportJob} {answer : Answer β} {a : Attempt} {phase phase' : Phase}
  {fellBack : Bool} {strategy : ImportStrategy}

theorem Inv.idle (hinv : Inv plan start s phase) (hplan : done ++ rest = plan)
    (hrunning : Running plan start s done none) : Inv plan start s .idle :=
  ⟨hinv.intact, hinv.keepsOwn, hinv.presentIsSource, fun hcopied _ hp =>
    hrunning.idle hplan hcopied hp⟩

theorem Inv.create {content : Option β} {isCopy : Bool} (hinv : Inv plan start s phase)
    (hplan : a.done ++ t :: rest = plan) (hrunning : Running plan start s a.done none)
    (hfree : s.disk.entries t.destination = none)
    (hnew : content = none ∨ s.disk.contents id = none)
    (hheld : Held start (s.create t.destination id content isCopy).disk none t)
    (hkind : Settled (s.create t.destination id content isCopy).disk t ∨ isCopy = true) :
    Inv plan start (s.create t.destination id content isCopy) (next a t rest fellBack) := by
  have hframe := frame_create plan content isCopy hfree hnew
  refine ⟨fun u hu => hframe.intact hu (hinv.intact u hu), hinv.keepsOwn, hinv.presentIsSource, ?_, ?_⟩
  · simpa [next] using hplan
  · refine hrunning.advance hframe hinv.intact hplan (fun u hu => (hrunning.held u hu).isSome)
      (fun u _ hsettled => hsettled.isSome) (fun p hp => ?_) (fun p hp => List.mem_cons.1 hp)
      (fun f hf => by cases hf) hheld ?_
    · cases isCopy
      · exact hp
      · exact List.mem_cons_of_mem _ hp
    · rcases hkind with hsettled | rfl
      · exact .inl hsettled
      · exact .inr List.mem_cons_self

theorem Inv.beginCopy {written : β} (hinv : Inv plan start s phase)
    (hplan : a.done ++ t :: rest = plan) (hrunning : Running plan start s a.done none)
    (hfree : s.disk.entries t.destination = none)
    (h : beginCopy s a t rest id written fellBack = some (s', phase')) : Inv plan start s' phase' := by
  unfold ImportStage.beginCopy at h
  split_ifs at h with hused
  have hnew : s.disk.contents id = none := Option.not_isSome_iff_eq_none.1 hused
  cases hread : (stat s.disk.entries t.source).bind s.disk.contents with
  | none =>
    rw [hread] at h
    cases h
    exact hinv.idle hplan hrunning
  | some bytes =>
    rw [hread] at h
    cases h
    have hframe := frame_create plan (some written) true hfree (.inr hnew)
    refine ⟨fun u hu => hframe.intact hu (hinv.intact u hu), hinv.keepsOwn, hinv.presentIsSource,
      hplan, ?_, put_self, List.mem_cons_self, fun u hu hentry => ?_⟩
    · refine hrunning.frame hframe hinv.intact
        (fun u hu => ⟨hplan ▸ List.mem_append_left _ hu, (hrunning.held u hu).isSome⟩)
        (fun u _ hu => List.mem_cons_of_mem _ hu) (fun f hf => ?_) (fun p hp => ?_)
      · cases hf
        exact hnew
      · rcases List.mem_cons.1 hp with rfl | hp
        · exact .inl ⟨_, rfl, rfl⟩
        · rcases hrunning.own p hp with ⟨f, hf, -⟩ | hdone | hanchored
          · cases hf
          · exact .inr (.inl hdone)
          · exact .inr (.inr (hframe.anchored hinv.intact (fun u _ hsettled => hsettled.isSome) hanchored))
    · obtain ⟨id', bytes', -, -, hsource, -⟩ := hinv.intact u hu
      have hne : u.source ≠ t.destination := by
        intro heq
        rw [heq, hfree] at hsource
        cases hsource
      rw [show (s.create t.destination id (some written) true).disk.entries u.source =
        s.disk.entries u.source from put_of_ne hne] at hentry
      exact ne_source_of_new hinv.intact hnew u hu hentry

theorem Inv.place (hinv : Inv plan start s (.placing a t rest strategy fellBack))
    (h : place host s a t rest strategy fellBack answer = some (s', phase')) :
    Inv plan start s' phase' := by
  obtain ⟨hplan, hrunning, hmove⟩ := hinv.phase
  have hintact : Intact start s.disk t := hinv.intact t (hplan ▸ by simp)
  have hidle := hinv.idle hplan hrunning
  unfold ImportStage.place at h
  dsimp only at h
  by_cases hoccupied : (s.disk.entries t.destination).isSome = true
  · rw [if_pos hoccupied] at h
    cases h
    exact hidle
  rw [if_neg hoccupied] at h
  have hfree : s.disk.entries t.destination = none := Option.not_isSome_iff_eq_none.1 hoccupied
  cases strategy with
  | move => exact absurd rfl hmove
  | copy => exact hinv.beginCopy hplan hrunning hfree h
  | auto | providerRelocation =>
    cases h
    exact hidle
  | hardlink =>
    obtain ⟨source, bytes, hstart, hbytes, hentry, hcontent⟩ := hintact
    dsimp only at h
    rw [hentry] at h
    dsimp only at h
    split_ifs at h with hdevice
    · cases h
      have hne : t.source ≠ t.destination := by
        intro heq
        rw [heq, hfree] at hentry
        cases hentry
      refine hinv.create hplan hrunning hfree (.inl rfl) ⟨source, source, bytes, hstart, hbytes,
        stat_file put_self, hcontent, fun f hf => by cases hf⟩ (.inl ⟨source, ?_, stat_file put_self⟩)
      exact (put_of_ne hne).trans hentry
    · exact hinv.beginCopy hplan hrunning hfree h
  | reflink =>
    cases hcloning : answer.cloning with
    | refused leavesFile =>
      cases leavesFile with
      | false =>
        rw [hcloning] at h
        exact hinv.beginCopy hplan hrunning hfree h
      | true =>
        rw [hcloning] at h
        dsimp only at h
        split_ifs at h with hused
        cases h
        have hframe := frame_create plan (some answer.written) true hfree
          (.inr (Option.not_isSome_iff_eq_none.1 hused))
        exact ⟨fun u hu => hframe.intact hu (hinv.intact u hu), hinv.keepsOwn, hinv.presentIsSource,
          fun hcopied => absurd hcopied (List.cons_ne_nil _ _)⟩
    | cloned =>
      rw [hcloning] at h
      dsimp only at h
      split_ifs at h with hused
      cases hread : (stat s.disk.entries t.source).bind s.disk.contents with
      | none =>
        rw [hread] at h
        cases h
        exact hidle
      | some bytes =>
        rw [hread] at h
        cases h
        obtain ⟨source, -, hstart, hbytes⟩ := hintact.read hread
        exact hinv.create hplan hrunning hfree (.inr (Option.not_isSome_iff_eq_none.1 hused))
          ⟨source, _, bytes, hstart, hbytes, stat_file put_self, Function.update_self _ _ _,
            fun f hf => by cases hf⟩ (.inr rfl)

theorem Inv.write {bytes : β} (hinv : Inv plan start s (.copying a t rest id fellBack))
    (hread : (stat s.disk.entries t.source).bind s.disk.contents = some bytes) :
    Inv plan start
      { s with disk := { s.disk with contents := Function.update s.disk.contents id (some bytes) } }
      (next a t rest fellBack) := by
  obtain ⟨hplan, hrunning, hfile, hcopied, hsources⟩ := hinv.phase
  have hframe := frame_write bytes hsources
  obtain ⟨source, -, hstart, hbytes⟩ := (hinv.intact t (hplan ▸ by simp)).read hread
  refine ⟨fun u hu => hframe.intact hu (hinv.intact u hu), hinv.keepsOwn, hinv.presentIsSource, ?_, ?_⟩
  · simpa [next] using hplan
  · refine hrunning.advance hframe hinv.intact hplan (fun u hu hstat => ?_)
      (fun u hu hsettled hstat => ?_) (fun p hp => hp) (fun p hp => .inr hp)
      (fun f hf => by cases hf; rfl) ?_ (.inr hcopied)
    · obtain ⟨_, id', _, -, -, hstat', -, hfresh⟩ := hrunning.held u hu
      rw [hstat] at hstat'
      exact hfresh _ rfl (Option.some.inj hstat')
    · obtain ⟨id', hentry, hstat'⟩ := hsettled
      rw [hstat] at hstat'
      cases hstat'
      exact hsources u hu hentry
    · exact ⟨source, id, bytes, hstart, hbytes, stat_file hfile, Function.update_self _ _ _,
        fun f hf => by cases hf⟩

theorem Inv.discard (hinv : Inv plan start s (.copying a t rest id fellBack)) :
    Inv plan start (s.discard t.destination id) .idle := by
  obtain ⟨hplan, hrunning, hfile, -, hsources⟩ := hinv.phase
  have hframe := frame_discard hfile hsources
  have hother : ∀ u ∈ a.done, ∃ id', stat s.disk.entries u.destination = some id' ∧ id' ≠ id := by
    intro u hu
    obtain ⟨_, id', _, -, -, hstat, -, hfresh⟩ := hrunning.held u hu
    exact ⟨id', hstat, (hfresh _ rfl).symm⟩
  have hsettled : ∀ u ∈ plan, Settled s.disk u →
      ∃ id', stat s.disk.entries u.destination = some id' ∧ id' ≠ id := by
    rintro u hu ⟨id', hentry, hstat⟩
    refine ⟨id', hstat, ?_⟩
    rintro rfl
    exact hsources u hu hentry
  have hrunning' : Running plan start (s.discard t.destination id) a.done none := by
    refine hrunning.frame hframe hinv.intact
      (fun u hu => ⟨hplan ▸ List.mem_append_left _ hu, hother u hu⟩) (fun u hu hcopied => ?_)
      (fun f hf => by cases hf) (fun p hp => ?_)
    · obtain ⟨id', hstat, hne⟩ := hother u hu
      refine List.mem_filter.2 ⟨hcopied, decide_eq_true fun heq => hne ?_⟩
      rw [heq, stat_file hfile] at hstat
      exact (Option.some.inj hstat).symm
    · obtain ⟨hp, hne⟩ := List.mem_filter.1 hp
      rcases hrunning.own p hp with ⟨f, hf, rfl⟩ | hdone | hanchored
      · cases hf
        exact absurd rfl (of_decide_eq_true hne)
      · exact .inr (.inl hdone)
      · exact .inr (.inr (hframe.anchored hinv.intact hsettled hanchored))
  exact ⟨fun u hu => hframe.intact hu (hinv.intact u hu), hinv.keepsOwn, hinv.presentIsSource,
    fun hcopied _ hp => hrunning'.idle hplan hcopied hp⟩

theorem keepsOwn_concat {log : List Happening} {e : Happening} (h : KeepsOwn log)
    (he : ∀ source target own, e = .setAside source target own → own = []) : KeepsOwn (log ++ [e]) := by
  intro source target own hmem
  rcases List.mem_append.1 hmem with hmem | hmem
  · exact h source target own hmem
  · exact he source target own (List.mem_singleton.1 hmem).symm

theorem presentIsSource_concat {log : List Happening} {e : Happening} (h : PresentIsSource log)
    (he : ∀ destination existing source, e = .present destination existing source →
      existing = source) : PresentIsSource (log ++ [e]) := by
  intro destination existing source hmem
  rcases List.mem_append.1 hmem with hmem | hmem
  · exact h destination existing source hmem
  · exact he destination existing source (List.mem_singleton.1 hmem).symm

theorem Inv.skip {existing : FileId} {source : Option FileId}
    (hinv : Inv plan start s (.comparing a t rest existing source)) (hsource : source = some existing) :
    Inv plan start { s with log := s.log ++ [.present t.destination existing existing] }
      (skip a t rest) := by
  obtain ⟨hplan, hrunning, hstat, hread⟩ := hinv.phase
  have hintact := hinv.intact t (hplan ▸ by simp)
  have hsettled : Settled s.disk t := by
    obtain ⟨id, -, -, -, hentry, -⟩ := hintact
    have hid := hread existing hsource
    rw [stat_file hentry] at hid
    cases hid
    exact ⟨existing, hentry, hstat⟩
  refine ⟨hinv.intact, keepsOwn_concat hinv.keepsOwn (by rintro _ _ _ ⟨⟩),
    presentIsSource_concat hinv.presentIsSource (by rintro _ _ _ ⟨⟩; rfl), ?_, ?_⟩
  · simpa [ImportStage.skip] using hplan
  · exact hrunning.advance (Frame.refl plan s.disk) hinv.intact hplan (fun _ _ => trivial)
      (fun _ _ _ => trivial) (fun p hp => hp) (fun p hp => .inr hp) (fun f hf => by cases hf)
      (hintact.held hsettled) (.inl hsettled)

theorem Inv.compare {existing : FileId} {source : Option FileId}
    (hinv : Inv plan start s (.comparing a t rest existing source))
    (hallowed : Recognisable plan s (.comparing a t rest existing source)) :
    Inv plan start (compare host s a t rest existing source answer).1
      (compare host s a t rest existing source answer).2 := by
  obtain ⟨hplan, hrunning, hstat, hread⟩ := hinv.phase
  have haside (hother : source ≠ some existing) : ∀ p ∈ s.placed, ∃ u ∈ a.done, u.destination = p := by
    have hunsettled : ¬ Settled s.disk t := by
      rintro ⟨id, hentry, hstat'⟩
      rw [hstat] at hstat'
      cases hstat'
      cases source with
      | none => exact hallowed.1 rfl (stat_file hentry)
      | some id =>
        have hid := hread id rfl
        rw [stat_file hentry] at hid
        exact hother hid.symm
    intro p hp
    rcases hrunning.own p hp with ⟨f, hf, -⟩ | hdone | hanchored
    · cases hf
    · exact hdone
    · exact hanchored.mem_done hplan hunsettled
  unfold ImportStage.compare
  cases source with
  | none => exact ⟨hinv.intact, hinv.keepsOwn, hinv.presentIsSource, hplan, hrunning, haside (by simp)⟩
  | some id =>
    dsimp only
    split_ifs with hinode
    · obtain rfl : id = existing := FileId.ext (hallowed.2 id rfl hinode) hinode
      exact hinv.skip rfl
    · refine ⟨hinv.intact, hinv.keepsOwn, hinv.presentIsSource, hplan, hrunning, haside ?_⟩
      rintro ⟨⟩
      exact hinode rfl

theorem Inv.sweep {name newName : String} {renames : List (String × String)}
    (hinv : Inv plan start s (.sweeping a t rest ((name, newName) :: renames)))
    (hallowed : Recognisable plan s (.sweeping a t rest ((name, newName) :: renames))) :
    Inv plan start (sweep s a t rest name newName renames).1
      (sweep s a t rest name newName renames).2 := by
  obtain ⟨hplan, hrunning, hown⟩ := hinv.phase
  unfold ImportStage.sweep
  dsimp only
  split_ifs with hentry
  · have hframe := frame_rename (U := (· ∈ a.done)) (fun x hx => (hallowed x hx).1)
      fun x hx u hu => (hallowed x hx).2 u hu
    refine ⟨fun u hu => hframe.intact hu (hinv.intact u hu), keepsOwn_concat hinv.keepsOwn ?_,
      presentIsSource_concat hinv.presentIsSource (by rintro _ _ _ ⟨⟩), hplan, ?_, hown⟩
    · rintro source target own ⟨⟩
      rw [List.filter_eq_nil_iff]
      intro p hp hprefix
      obtain ⟨u, hu, rfl⟩ := hown p hp
      exact (hallowed _ List.mem_cons_self).2 u hu _ (self_mem_statChain _ _) (of_decide_eq_true hprefix)
    · exact hrunning.frame hframe hinv.intact (fun u hu => ⟨hplan ▸ List.mem_append_left _ hu, hu⟩)
        (fun u _ hu => hu) (fun f hf => by cases hf) fun p hp => .inr (.inl (hown p hp))
  · exact hinv.idle hplan hrunning

theorem Inv.prepare (hstrategy : job.strategy ≠ some .move)
    (hinv : Inv plan start s (.preparing a t rest)) (nodes : Path → Entry) (relocates : Bool) :
    Inv plan start
      { s with disk := { s.disk with entries := mkdirs s.disk.entries p nodes } }
      (prepared job a t rest relocates) := by
  obtain ⟨hplan, hrunning⟩ := hinv.phase
  have hframe := frame_mkdirs plan s.disk p nodes
  have hrunning' : Running plan start
      { s with disk := { s.disk with entries := mkdirs s.disk.entries p nodes } } a.done none := by
    refine hrunning.frame hframe hinv.intact
      (fun u hu => ⟨hplan ▸ List.mem_append_left _ hu, (hrunning.held u hu).isSome⟩)
      (fun u _ hu => hu) (fun f hf => by cases hf) fun q hq => ?_
    rcases hrunning.own q hq with ⟨f, hf, -⟩ | hdone | hanchored
    · cases hf
    · exact .inr (.inl hdone)
    · exact .inr (.inr (hframe.anchored hinv.intact (fun u _ hsettled => hsettled.isSome) hanchored))
  refine ⟨fun u hu => hframe.intact hu (hinv.intact u hu), hinv.keepsOwn, hinv.presentIsSource, ?_⟩
  have hmove := selectStrategy_ne_move a.caps true hstrategy
  unfold prepared
  split
  · split_ifs
    · exact ⟨hplan, hrunning', by simp⟩
    · exact ⟨hplan, hrunning'⟩
  · exact ⟨hplan, hrunning', hmove⟩

theorem Inv.fail (hinv : Inv plan start s phase) (h : fail s answer phase = some (s', phase')) :
    Inv plan start s' phase' := by
  cases phase with
  | idle | quarantined _ | imported _ _ => cases h
  | looking a todo | comparing a t rest existing source | sweeping a t rest renames
  | preparing a t rest | relocating a t rest | placing a t rest strategy fellBack =>
    cases h
    obtain ⟨hplan, hrunning⟩ := hinv.phase
    first
      | exact hinv.idle hplan hrunning
      | exact hinv.idle hplan hrunning.1
  | copying a t rest id fellBack =>
    simp only [ImportStage.fail] at h
    split_ifs at h with hunlinks
    · cases h
      exact hinv.discard
    · cases h
      obtain ⟨-, -, -, hcopied, -⟩ := hinv.phase
      refine ⟨hinv.intact, hinv.keepsOwn, hinv.presentIsSource, fun hnone => ?_⟩
      rw [hnone] at hcopied
      cases hcopied
  | closing tally =>
    cases h
    exact hinv.idle (List.append_nil plan) hinv.phase

theorem Inv.step (hstrategy : job.strategy ≠ some .move) (hinv : Inv plan start s phase)
    (hallowed : Recognisable plan s phase)
    (h : act host plan job s phase answer = some (s', phase')) : Inv plan start s' phase' := by
  unfold act at h
  by_cases hdies : answer.dies = true
  · rw [if_pos hdies] at h
    exact hinv.fail h
  rw [if_neg hdies] at h
  cases phase with
  | quarantined _ | imported _ _ => cases h
  | idle =>
    dsimp only at h
    split_ifs at h with hempty <;> cases h
    · exact ⟨hinv.intact, hinv.keepsOwn, hinv.presentIsSource, trivial⟩
    · refine ⟨hinv.intact, hinv.keepsOwn, hinv.presentIsSource, rfl, ?_, ?_, fun p hp => ?_⟩
      · simp
      · simp
      · exact .inr (.inr (hinv.phase hallowed p hp))
  | looking a todo =>
    obtain ⟨hplan, hrunning⟩ := hinv.phase
    cases todo with
    | nil =>
      cases h
      rw [List.append_nil] at hplan
      exact ⟨hinv.intact, hinv.keepsOwn, hinv.presentIsSource, hplan ▸ hrunning⟩
    | cons t rest =>
      have hread : ∀ p id, answer.stat s.disk.entries p = some id → stat s.disk.entries p = some id := by
        intro p id hstat
        unfold Answer.stat at hstat
        split_ifs at hstat
        exact hstat
      dsimp only at h
      cases hstat : answer.stat s.disk.entries t.destination with
      | none =>
        rw [hstat] at h
        cases h
        exact ⟨hinv.intact, hinv.keepsOwn, hinv.presentIsSource, hplan, hrunning⟩
      | some existing =>
        rw [hstat] at h
        cases h
        exact ⟨hinv.intact, hinv.keepsOwn, hinv.presentIsSource, hplan, hrunning,
          hread _ _ hstat, fun id hid => hread _ _ hid⟩
  | comparing a t rest existing source =>
    obtain ⟨rfl, rfl⟩ := Prod.ext_iff.1 (Option.some.inj h)
    exact hinv.compare hallowed
  | sweeping a t rest renames =>
    cases renames with
    | nil =>
      cases h
      obtain ⟨hplan, hrunning, -⟩ := hinv.phase
      exact ⟨hinv.intact, hinv.keepsOwn, hinv.presentIsSource, hplan, hrunning⟩
    | cons r renames =>
      obtain ⟨rfl, rfl⟩ := Prod.ext_iff.1 (Option.some.inj h)
      exact hinv.sweep hallowed
  | preparing a t rest =>
    cases h
    exact hinv.prepare hstrategy _ _
  | relocating a t rest => exact hallowed.elim
  | placing a t rest strategy fellBack => exact hinv.place h
  | copying a t rest id fellBack =>
    dsimp only at h
    cases hread : (stat s.disk.entries t.source).bind s.disk.contents with
    | none =>
      obtain ⟨-, -, -, hcopied, -⟩ := hinv.phase
      rw [hread] at h
      cases h
      refine ⟨hinv.intact, hinv.keepsOwn, hinv.presentIsSource, fun hnone => ?_⟩
      rw [hnone] at hcopied
      cases hcopied
    | some bytes =>
      rw [hread] at h
      cases h
      exact hinv.write hread
  | closing tally =>
    cases h
    exact ⟨hinv.intact, hinv.keepsOwn, hinv.presentIsSource, hinv.phase⟩

theorem Inv.importsOnce (hinv : Inv plan start s phase) : ImportsOnce plan start s phase where
  keepsOwn := hinv.keepsOwn
  presentIsSource := hinv.presentIsSource
  placed := by
    rintro tally message rfl t ht
    obtain ⟨source, id, bytes, hstart, hbytes, hstat, hcontent, -⟩ := hinv.phase.held t ht
    exact ⟨source, id, bytes, hstart, hbytes, hstat, hcontent⟩

/-- The storage before anything of the payload has been placed. -/
def untouched (disk : Disk β) : Storage β where
  disk := disk
  placed := []
  copied := []
  log := []

def film : Target where
  source := ["staging", "Film.mkv"]
  destination := ["lib", "Film (2026)", "Film (2026).mkv"]

/-- Staging and library are on one device. -/
def oneDisk : Host where
  rt := .ascii
  device _ := 1

def filmDisk : Disk String where
  entries p := if p = film.source then some (.file ⟨1, 10⟩) else none
  contents id := if id = ⟨1, 10⟩ then some "film" else none

def byStrategy (strategy : ImportStrategy) : ImportJob where
  strategy := some strategy
  torrentHash := none
  engineId := none

def filmImport : Config Unit (Storage String) Phase := ⟨untouched filmDisk, fun _ => .idle⟩

/-- The file is in the library; the row that should say so cannot be written. -/
def firstAttempt : List (Unit × Answer String) :=
  [((), { written := "" }), ((), { written := "" }), ((), { written := "" }),
    ((), { written := "fi", inode := 11 }), ((), { written := "" }), ((), { written := "" }),
    ((), { written := "", dies := true })]

def secondAttempt : List (Unit × Answer String) :=
  [((), { written := "" }), ((), { written := "" }),
    ((), { written := "", listing := ["Film (2026).mkv"] }), ((), { written := "" }),
    ((), { written := "" }), ((), { written := "" }), ((), { written := "fi", inode := 12 }),
    ((), { written := "" }), ((), { written := "" }), ((), { written := "" })]

def takesOwn : Happening → Bool
  | .setAside _ _ own => own ≠ []
  | .present _ _ _ => false

def isImported : Phase → Bool
  | .imported _ _ => true
  | _ => false

theorem not_keepsOwn {log : List Happening} (h : log.any takesOwn = true) : ¬ KeepsOwn log := by
  intro hkeeps
  obtain ⟨e, he, htakes⟩ := List.any_eq_true.1 h
  cases e with
  | setAside source target own => exact of_decide_eq_true htakes (hkeeps source target own he)
  | present _ _ _ => cases htakes

theorem payload_film : Payload [film] filmDisk := by
  intro t ht
  rw [List.mem_singleton.1 ht]
  exact ⟨⟨1, 10⟩, "film", rfl, rfl⟩

end UltraTorrent.Intake.RepeatableImport
