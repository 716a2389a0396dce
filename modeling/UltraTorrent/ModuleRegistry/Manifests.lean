import Mathlib.Data.List.Infix
import Mathlib.Data.Finset.Dedup
import Mathlib.Data.List.Chain
import UltraTorrent.Library.DepthFirst
import UltraTorrent.Library.Fallible

/-! The manifests of the modules, and what is refused when they are loaded. A cycle among the
dependencies is looked for by a recursion that throws the way it went. -/
namespace UltraTorrent.ModuleRegistry.Manifests

open Library Library.DepthFirst Library.Fuel

structure ModuleManifest where
  id : String
  name : String
  /-- Cannot be disabled. -/
  required : Bool
  enabledByDefault : Bool
  dependencies : List String

def byId (manifests : List ModuleManifest) (id : String) : Option ModuleManifest := manifests.find? (·.id = id)

/-- `byId.get(id)?.dependencies ?? []` -/
def dependenciesOf (manifests : List ModuleManifest) (id : String) : List String :=
  ((byId manifests id).map (·.dependencies)).getD []

/-! ### Cycles -/

abbrev Colors := String → Color

/-- Throws the stack, the module and the dependency that is on the stack already. -/
def visit (next : String → List String) : ℕ → Colors → List String → String → Outcome (List String) Colors
  | 0, _, _, _ => .timeout
  | depth + 1, color, stack, id => do
    let color ← (next id).foldlM (fun color dep => match color dep with
      | .gray => .thrown (stack ++ [id, dep])
      | .white => visit next depth color (stack ++ [id]) dep
      | .black => pure color) (Function.update color id .gray)
    pure (Function.update color id .black)

def detectCycles (manifests : List ModuleManifest) : Outcome (List String) Colors :=
  (manifests.map (·.id)).foldlM (fun color id =>
    if color id = .white then visit (dependenciesOf manifests) (manifests.length + 1) color [] id else pure color)
    fun _ => .white

/-! ### Loading -/

def validateManifest (m : ModuleManifest) : Except String Unit :=
  if m.id = "" then .error s!"Invalid manifest \"{m.id}\": missing id"
  else if m.name = "" then .error s!"Invalid manifest \"{m.id}\": missing name"
  else pure ()

def firstUnknown (manifests : List ModuleManifest) : Option (String × String) :=
  manifests.findSome? fun m => (m.dependencies.find? fun dep => (byId manifests dep).isNone).map fun dep => (m.id, dep)

def load (manifests : List ModuleManifest) : Outcome String Unit :=
  match manifests.forM validateManifest with
  | .error message => .thrown message
  | .ok () =>
    if ¬ (manifests.map (·.id)).Nodup then .thrown "Duplicate module id in manifests"
    else
      match firstUnknown manifests with
      | some (id, dep) => .thrown s!"Module \"{id}\" depends on unknown module \"{dep}\""
      | none =>
        match detectCycles manifests with
        | .timeout => .timeout
        | .thrown path => .thrown ("Circular dependency: " ++ " → ".intercalate path)
        | .ok _ => .ok ()

variable {next : String → List String} {color color' : Colors} {done done' stack path ids deps : List String}
  {id dep : String} {depth : ℕ}

/-! ### What the colours say -/

/-- Black is what has been left, in that order the last first, and gray what is on the stack. -/
structure Marked (next : String → List String) (color : Colors) (done stack : List String) : Prop where
  black : ∀ id, color id = .black ↔ id ∈ done
  gray : ∀ id, color id = .gray ↔ id ∈ stack
  finished : Finished next done

theorem Marked.enter (h : Marked next color done stack) (hid : color id = .white) :
    Marked next (Function.update color id .gray) done (stack ++ [id]) := by
  refine ⟨fun other => ?_, fun other => ?_, h.finished⟩ <;> rw [Function.update_apply] <;> split_ifs with hother
  · have hblack := h.black id
    rw [hid] at hblack
    simpa [hother] using hblack
  · exact h.black other
  · simp [hother]
  · simpa [hother] using h.gray other

theorem Marked.leave (h : Marked next color done (stack ++ [id])) (hstack : id ∉ stack)
    (hdeps : ∀ dep ∈ next id, dep ∈ done) : Marked next (Function.update color id .black) (id :: done) stack := by
  have hid : color id = .gray := (h.gray id).2 (by simp)
  have hnew : id ∉ done := by
    rw [← h.black, hid]
    decide
  refine ⟨fun other => ?_, fun other => ?_, hnew, hdeps, h.finished⟩ <;> rw [Function.update_apply] <;>
    split_ifs with hother
  · simp [hother]
  · simpa [hother] using h.black other
  · simpa [hother] using hstack
  · simpa [hother] using h.gray other

theorem Marked.not_mem_stack (h : Marked next color done stack) (hid : color id = .white) : id ∉ stack := by
  rw [← h.gray, hid]
  decide

/-! ### What a visit leaves, and what it throws -/

/-- A way along the dependencies that ends in a module it has been at before. -/
def Circular (next : String → List String) (path : List String) : Prop :=
  ∃ before dep between, path = before ++ dep :: between ++ [dep] ∧ path.IsChain (Leads next)

/-- The modules not met so far. -/
def whites (ids : Finset String) (color : Colors) : Finset String := ids.filter fun id => color id = .white

variable {ids : Finset String}

theorem Marked.whites_subset (h : Marked next color done stack) (h' : Marked next color' done' stack)
    (hdone : ∀ id ∈ done, id ∈ done') : whites ids color' ⊆ whites ids color := by
  intro id hid
  obtain ⟨hmem, hwhite⟩ := Finset.mem_filter.1 hid
  refine Finset.mem_filter.2 ⟨hmem, ?_⟩
  cases hcolor : color id with
  | white => rfl
  | gray => rw [(h'.gray id).2 ((h.gray id).1 hcolor)] at hwhite; cases hwhite
  | black => rw [(h'.black id).2 (hdone id ((h.black id).1 hcolor))] at hwhite; cases hwhite

theorem card_whites_enter (hmem : id ∈ ids) (hid : color id = .white) :
    (whites ids (Function.update color id .gray)).card < (whites ids color).card := by
  refine Finset.card_lt_card ⟨fun other hother => ?_, fun hsubset => ?_⟩
  · obtain ⟨hother, hwhite⟩ := Finset.mem_filter.1 hother
    rw [Function.update_apply] at hwhite
    split_ifs at hwhite
    exact Finset.mem_filter.2 ⟨hother, hwhite⟩
  · have hgray := (Finset.mem_filter.1 (hsubset (Finset.mem_filter.2 ⟨hmem, hid⟩))).2
    rw [Function.update_self] at hgray
    cases hgray

/-- The body of the loop over the dependencies. -/
def look (next : String → List String) (depth : ℕ) (stack : List String) (id : String) (color : Colors) (dep : String) :
    Outcome (List String) Colors :=
  match color dep with
  | .gray => .thrown (stack ++ [id, dep])
  | .white => visit next depth color (stack ++ [id]) dep
  | .black => pure color

theorem visit_succ : visit next (depth + 1) color stack id =
    (next id).foldlM (look next depth stack id) (Function.update color id .gray) >>= fun color =>
      pure (Function.update color id .black) := rfl

theorem chain_snoc (h : (stack ++ [id]).IsChain (Leads next)) (hdep : dep ∈ next id) :
    (stack ++ [id] ++ [dep]).IsChain (Leads next) := by
  rw [List.append_assoc, List.singleton_append, List.isChain_append_cons_cons]
  exact ⟨h, hdep, List.isChain_singleton dep⟩

/-- The dependencies the loop is past are black. -/
def Passed (next : String → List String) (done stack seen : List String) (color : Colors) : Prop :=
  ∃ done', Marked next color done' stack ∧ (∀ id ∈ done, id ∈ done') ∧ ∀ dep ∈ seen, dep ∈ done'

/-- A visit leaves the module, and all it leads to, black, or throws the way back to a module on the stack. -/
theorem visit_ends (hids : ∀ id ∈ ids, ∀ dep ∈ next id, dep ∈ ids) (h : Marked next color done stack)
    (hmem : id ∈ ids) (hid : color id = .white) (hchain : (stack ++ [id]).IsChain (Leads next))
    (hdepth : (whites ids color).card ≤ depth) :
    (visit next depth color stack id).Ends
      (fun color' => ∃ done', Marked next color' done' stack ∧ (∀ id ∈ done, id ∈ done') ∧ id ∈ done') (Circular next) := by
  induction depth generalizing color done stack id with
  | zero =>
    have hwhite : id ∈ whites ids color := Finset.mem_filter.2 ⟨hmem, hid⟩
    have hpos := Finset.card_pos.2 ⟨id, hwhite⟩
    omega
  | succ depth ih =>
    have henter := h.enter hid
    have hcard := card_whites_enter hmem hid
    rw [visit_succ]
    have hstart : Passed next done (stack ++ [id]) [] (Function.update color id .gray) :=
      ⟨done, henter, fun _ h => h, by simp⟩
    refine (Outcome.Ends.foldlM hstart ?_).bind ?_
    · rintro seen dep mid hdep ⟨done₁, hmarked, hdone, hseen⟩
      have hlead := chain_snoc hchain hdep
      unfold look
      cases hcolor : mid dep with
      | gray =>
        obtain ⟨before, between, hsplit⟩ := List.append_of_mem ((hmarked.gray dep).1 hcolor)
        refine ⟨before, dep, between, ?_, ?_⟩
        · rw [← hsplit]
          simp
        · simpa using hlead
      | white =>
        have hle : (whites ids mid).card ≤ _ := Finset.card_le_card (henter.whites_subset hmarked hdone)
        refine (ih hmarked (hids id hmem dep hdep) hcolor hlead (by omega)).imp ?_
        rintro color' ⟨done₂, hmarked', hdone', hdep'⟩
        refine ⟨done₂, hmarked', fun id hid => hdone' id (hdone id hid), fun other hother => ?_⟩
        rcases List.mem_append.1 hother with hother | hother
        · exact hdone' other (hseen other hother)
        · exact List.mem_singleton.1 hother ▸ hdep'
      | black =>
        refine ⟨done₁, hmarked, hdone, fun other hother => ?_⟩
        rcases List.mem_append.1 hother with hother | hother
        · exact hseen other hother
        · exact List.mem_singleton.1 hother ▸ (hmarked.black dep).1 hcolor
    · rintro mid ⟨done', hmarked, hdone, hdeps⟩
      exact ⟨id :: done', hmarked.leave (h.not_mem_stack hid) hdeps,
        fun other hother => List.mem_cons_of_mem id (hdone other hother), List.mem_cons_self⟩

theorem Circular.cycle (h : Circular next path) : ∃ id, Relation.TransGen (Leads next) id id := by
  obtain ⟨before, dep, between, rfl, hchain⟩ := h
  have htrans := (hchain.imp fun _ _ => Relation.TransGen.single).pairwise
  rw [List.append_assoc, List.pairwise_append] at htrans
  exact ⟨dep, List.rel_of_pairwise_cons htrans.2.1 (by simp)⟩

theorem not_cycle_of_rank (hmem : ∀ id dep, Leads next id dep → id ∈ done) (h : Finished next done) :
    ¬ ∃ id, Relation.TransGen (Leads next) id id := by
  obtain ⟨rank, -, hrank⟩ := h.rank
  have hless : ∀ id dep, Relation.TransGen (Leads next) id dep → rank dep < rank id := by
    intro id dep hpath
    induction hpath with
    | single hlead => exact (hrank _ (hmem _ _ hlead) _ hlead).2
    | tail _ hlead ih => exact (hrank _ (hmem _ _ hlead) _ hlead).2.trans ih
  rintro ⟨id, hcycle⟩
  exact lt_irrefl _ (hless id id hcycle)

/-! ### What is loaded -/

variable {manifests : List ModuleManifest} {m : ModuleManifest} {message : String}

theorem byId_eq_none : byId manifests id = none ↔ ∀ m ∈ manifests, m.id ≠ id := by
  simp [byId]

/-- What can be loaded. -/
structure Loadable (manifests : List ModuleManifest) : Prop where
  named : ∀ m ∈ manifests, m.id ≠ "" ∧ m.name ≠ ""
  unique : (manifests.map (·.id)).Nodup
  known : ∀ m ∈ manifests, ∀ dep ∈ m.dependencies, ∃ n ∈ manifests, n.id = dep
  acyclic : ¬ ∃ id, Relation.TransGen (Leads (dependenciesOf manifests)) id id

theorem leads_iff : Leads (dependenciesOf manifests) id dep ↔ ∃ m, byId manifests id = some m ∧ dep ∈ m.dependencies := by
  unfold Leads dependenciesOf
  cases byId manifests id with
  | none => simp
  | some m => simp

theorem mem_of_byId (h : byId manifests id = some m) : m ∈ manifests ∧ m.id = id :=
  ⟨List.mem_of_find?_eq_some h, by simpa using List.find?_some h⟩

theorem byId_eq_some (hunique : (manifests.map (·.id)).Nodup) (hm : m ∈ manifests) : byId manifests m.id = some m := by
  cases hfind : byId manifests m.id with
  | none => exact absurd rfl (byId_eq_none.1 hfind m hm)
  | some n =>
    obtain ⟨hn, hid⟩ := mem_of_byId hfind
    rw [List.inj_on_of_nodup_map hunique hn hm hid]

theorem forM_validate : manifests.forM validateManifest = .ok () ↔ ∀ m ∈ manifests, m.id ≠ "" ∧ m.name ≠ "" := by
  induction manifests with
  | nil => simp [pure, Except.pure]
  | cons m manifests ih =>
    have hstep : (m :: manifests).forM validateManifest = validateManifest m >>= fun _ => manifests.forM validateManifest := rfl
    rw [hstep, Fallible.bind_eq_ok, List.forall_mem_cons, ← ih]
    unfold validateManifest
    split_ifs with hid hname
    · simp [hid]
    · simp [hname]
    · simp [hid, hname, pure, Except.pure]

theorem firstUnknown_eq_none : firstUnknown manifests = none ↔
    ∀ m ∈ manifests, ∀ dep ∈ m.dependencies, ∃ n ∈ manifests, n.id = dep := by
  simp [firstUnknown, byId]

theorem detectCycles_ends (hknown : ∀ m ∈ manifests, ∀ dep ∈ m.dependencies, ∃ n ∈ manifests, n.id = dep) :
    (detectCycles manifests).Ends (fun _ => ¬ ∃ id, Relation.TransGen (Leads (dependenciesOf manifests)) id id)
      (Circular (dependenciesOf manifests)) := by
  set next := dependenciesOf manifests with hnext
  have hids : ∀ id ∈ (manifests.map (·.id)).toFinset, ∀ dep ∈ next id, dep ∈ (manifests.map (·.id)).toFinset := by
    intro id _ dep hdep
    obtain ⟨m, hm, hdep⟩ := leads_iff.1 hdep
    simpa using hknown m (mem_of_byId hm).1 dep hdep
  have hstart : Passed next [] [] [] (fun _ => .white) :=
    ⟨[], ⟨fun _ => by simp, fun _ => by simp, trivial⟩, by simp, by simp⟩
  unfold detectCycles
  refine (Outcome.Ends.foldlM hstart ?_).imp ?_
  · rintro seen id color hid ⟨done, hmarked, -, hseen⟩
    split_ifs with hwhite
    · have hcard : (whites (manifests.map (·.id)).toFinset color).card ≤ manifests.length + 1 :=
        ((Finset.card_filter_le _ _).trans (List.toFinset_card_le _)).trans (by simp)
      refine (visit_ends hids hmarked (List.mem_toFinset.2 hid) hwhite (List.isChain_singleton id) hcard).imp ?_
      rintro color' ⟨done', hmarked', hdone, hnew⟩
      refine ⟨done', hmarked', by simp, fun other hother => ?_⟩
      rcases List.mem_append.1 hother with hother | hother
      · exact hdone other (hseen other hother)
      · exact List.mem_singleton.1 hother ▸ hnew
    · refine ⟨done, hmarked, by simp, fun other hother => ?_⟩
      rcases List.mem_append.1 hother with hother | hother
      · exact hseen other hother
      · rw [List.mem_singleton.1 hother, ← hmarked.black]
        cases hcolor : color id with
        | white => exact absurd hcolor hwhite
        | gray => exact absurd ((hmarked.gray id).1 hcolor) List.not_mem_nil
        | black => rfl
  · rintro color ⟨done, hmarked, -, hseen⟩
    refine not_cycle_of_rank (fun id dep hlead => hseen id ?_) hmarked.finished
    obtain ⟨m, hm, -⟩ := leads_iff.1 hlead
    exact List.mem_map.2 ⟨m, mem_of_byId hm⟩

/-- Exactly what can be loaded is loaded. A circular dependency is named by a way along the
dependencies that comes back to a module it has been at. -/
theorem load_loadable (manifests : List ModuleManifest) : (load manifests = .ok () ∧ Loadable manifests) ∨
    ∃ message, load manifests = .thrown message ∧ ¬ Loadable manifests ∧
      ((∀ m ∈ manifests, m.id ≠ "" ∧ m.name ≠ "") → (manifests.map (·.id)).Nodup →
        (∀ m ∈ manifests, ∀ dep ∈ m.dependencies, ∃ n ∈ manifests, n.id = dep) →
        ∃ path, Circular (dependenciesOf manifests) path ∧ message = "Circular dependency: " ++ " → ".intercalate path) := by
  unfold load
  cases hforM : manifests.forM validateManifest with
  | error message =>
    have hnamed : ¬ ∀ m ∈ manifests, m.id ≠ "" ∧ m.name ≠ "" := by
      rw [← forM_validate, hforM]
      exact nofun
    exact .inr ⟨message, rfl, fun h => hnamed h.named, fun h => absurd h hnamed⟩
  | ok _ =>
    have hnamed := forM_validate.1 hforM
    dsimp only
    split_ifs with hunique
    · cases hunknown : firstUnknown manifests with
      | some pair =>
        have hknown : ¬ ∀ m ∈ manifests, ∀ dep ∈ m.dependencies, ∃ n ∈ manifests, n.id = dep := by
          rw [← firstUnknown_eq_none, hunknown]
          exact nofun
        exact .inr ⟨_, rfl, fun h => hknown h.known, fun _ _ h => absurd h hknown⟩
      | none =>
        have hknown := firstUnknown_eq_none.1 hunknown
        have hends := detectCycles_ends hknown
        cases hdetect : detectCycles manifests with
        | timeout => rw [hdetect] at hends; exact hends.elim
        | thrown path =>
          rw [hdetect] at hends
          have hcircular : Circular (dependenciesOf manifests) path := hends
          exact .inr ⟨_, rfl, fun h => h.acyclic hcircular.cycle, fun _ _ _ => ⟨path, hcircular, rfl⟩⟩
        | ok color =>
          rw [hdetect] at hends
          exact .inl ⟨rfl, hnamed, hunique, hknown, hends⟩
    · exact .inr ⟨_, rfl, fun h => hunique h.unique, fun _ h => absurd h hunique⟩

end UltraTorrent.ModuleRegistry.Manifests
