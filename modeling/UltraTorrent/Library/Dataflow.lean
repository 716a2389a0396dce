import Mathlib.Data.List.Nodup
import Mathlib.Order.Basic
import Mathlib.Tactic.SplitIfs

/-! Vertices that share variables, each fired once, in any order in which it is ready when it is
fired. Two runs that fire the vertices that meet at a variable in one order have the same outcome. -/
namespace UltraTorrent.Library.Dataflow

/-- What firing a vertex reads, sets and puts out, and when it is ready. -/
structure Program (V σ K X O : Type*) [DecidableEq K] where
  start : σ
  get : σ → K → Option X
  target : V → Option K
  reads : V → K → Prop
  value : V → σ → X
  output : V → σ → O
  fire : V → σ → σ
  leads : V → V → Prop
  ready : (V → Option O) → V → Prop
  get_fire : ∀ v s k, get (fire v s) k = if target v = some k then some (value v s) else get s k
  value_congr : ∀ {v s t}, (∀ k, reads v k → get s k = get t k) → value v s = value v t
  output_congr : ∀ {v s t}, (∀ k, reads v k → get s k = get t k) → output v s = output v t
  ready_congr : ∀ {v f g}, (∀ u, leads u v → f u = g u) → ready f v → ready g v
  ready_mono : ∀ {v f g}, (∀ u o, f u = some o → g u = some o) → ready f v → ready g v

variable {V σ K X O γ : Type*} [DecidableEq V] [DecidableEq K]

/-- The vertices fired with the variables each found, the last first. -/
abbrev History (V σ : Type*) := List (V × σ)

namespace Program

variable (P : Program V σ K X O)

def after : History V σ → σ
  | [] => P.start
  | (v, s) :: _ => P.fire v s

def outputs (past : History V σ) (v : V) : Option O := (past.lookup v).map (P.output v)

/-- Histories of runs. -/
inductive Fired : History V σ → Prop
  | start : Fired []
  | fire {past : History V σ} (v : V) : Fired past → v ∉ past.map Prod.fst →
      P.ready (P.outputs past) v → Fired ((v, P.after past) :: past)

/-- Nothing that is ready is left. -/
def Complete (past : History V σ) : Prop :=
  ∀ v, v ∉ past.map Prod.fst → ¬ P.ready (P.outputs past) v

/-- One of the two sets a variable that the other one reads or sets. -/
def Meet (u v : V) : Prop :=
  (∃ k, P.target u = some k ∧ (P.target v = some k ∨ P.reads v k)) ∨
    ∃ k, P.target v = some k ∧ P.reads u k

/-- Of two vertices that meet, the one fired first stands first. -/
def InOrder (rank : V → ℕ) (past : History V σ) : Prop :=
  past.Pairwise fun later earlier => P.Meet earlier.1 later.1 → rank earlier.1 < rank later.1

/-- The variables a vertex reads are the same. -/
def Alike (v : V) (s t : σ) : Prop := ∀ k, P.reads v k → P.get s k = P.get t k

/-- Whatever one run fires at a vertex, the other fires alike. -/
def Matched (past past' : History V σ) (v : V) : Prop :=
  ∀ s, (v, s) ∈ past → ∃ t, (v, t) ∈ past' ∧ P.Alike v s t

end Program

variable {P : Program V σ K X O} {past past' newer : History V σ} {u v : V} {s t : σ} {k : K}
  {rank : V → ℕ}

omit [DecidableEq V] in
theorem mem_fired (hs : (v, s) ∈ past) : v ∈ past.map Prod.fst := List.mem_map_of_mem hs

theorem outputs_cons : P.outputs ((v, s) :: past) u =
    if u = v then some (P.output v s) else P.outputs past u := by
  rw [Program.outputs, List.lookup_cons]
  by_cases hu : u = v
  · simp [hu]
  · rw [if_neg hu, beq_false_of_ne hu]
    rfl

/-- Only what was fired has an output. -/
theorem mem_of_outputs {o : O} (h : P.outputs past v = some o) :
    ∃ s, (v, s) ∈ past ∧ o = P.output v s := by
  obtain ⟨s, hs, rfl⟩ := Option.map_eq_some_iff.1 h
  obtain ⟨before, rest, hsplit, -⟩ := List.lookup_eq_some_iff.1 hs
  refine ⟨s, ?_, rfl⟩
  rw [hsplit]
  exact List.mem_append_right _ List.mem_cons_self

namespace Program.Fired

theorem nodup (h : P.Fired past) : (past.map Prod.fst).Nodup := by
  induction h with
  | start => exact List.nodup_nil
  | fire v _ hnew _ ih => exact List.nodup_cons.2 ⟨hnew, ih⟩

theorem unique (h : P.Fired past) (hs : (v, s) ∈ past) (ht : (v, t) ∈ past) : s = t := by
  have heq := List.inj_on_of_nodup_map h.nodup hs ht rfl
  exact congrArg Prod.snd heq

theorem outputs_of_mem (h : P.Fired past) (hs : (v, s) ∈ past) :
    P.outputs past v = some (P.output v s) := by
  cases hlookup : past.lookup v with
  | none =>
    have hnone := List.lookup_eq_none_iff.1 hlookup (v, s) hs
    simp at hnone
  | some t =>
    obtain ⟨before, rest, hsplit, -⟩ := List.lookup_eq_some_iff.1 hlookup
    have ht : (v, t) ∈ past := by
      rw [hsplit]
      exact List.mem_append_right _ List.mem_cons_self
    rw [Program.outputs, hlookup, h.unique hs ht]
    rfl

theorem split (h : P.Fired past) (hs : (v, s) ∈ past) : ∃ newer older, past = newer ++ (v, s) :: older ∧
    P.Fired older ∧ P.ready (P.outputs older) v ∧ s = P.after older := by
  induction h with
  | start => cases hs
  | @fire past u hfired hnew hready ih =>
    rcases List.mem_cons.1 hs with heq | hs
    · cases heq
      exact ⟨[], past, rfl, hfired, hready, rfl⟩
    · obtain ⟨newer, older, rfl, hrest⟩ := ih hs
      exact ⟨_ :: newer, older, rfl, hrest⟩

theorem outputs_mono (h : P.Fired (newer ++ past)) {o : O}
    (ho : P.outputs past u = some o) : P.outputs (newer ++ past) u = some o := by
  obtain ⟨s, hs, rfl⟩ := mem_of_outputs ho
  exact h.outputs_of_mem (List.mem_append_right newer hs)

theorem get_after (h : P.Fired past) : P.get (P.after past) k =
    ((past.find? fun e => P.target e.1 = some k).map fun e => P.value e.1 e.2).or
      (P.get P.start k) := by
  induction h with
  | start => rfl
  | @fire past v hfired _ _ ih =>
    rw [Program.after, P.get_fire]
    split_ifs with htarget
    · rw [List.find?_cons_of_pos (by simpa using htarget)]
      rfl
    · rw [List.find?_cons_of_neg (by simpa using htarget), ih]

end Program.Fired

/-! ### Two runs of one program -/

theorem eq_or_of_find? {α : Type*} {p : α → Bool} {R : α → α → Prop} {l : List α} {a b : α}
    (hfind : l.find? p = some a) (hl : l.Pairwise R) (hb : b ∈ l) (hp : p b = true) : b = a ∨ R a b := by
  obtain ⟨-, newer, older, rfl, hnewer⟩ := List.find?_eq_some_iff_append.1 hfind
  rcases List.mem_append.1 hb with hb | hb
  · have hnot := hnewer b hb
    rw [hp] at hnot
    cases hnot
  · rcases List.mem_cons.1 hb with rfl | hb
    · exact .inl rfl
    · exact .inr ((List.pairwise_cons.1 (List.pairwise_append.1 hl).2.1).1 b hb)

theorem get_after_eq (h : P.Fired past) (h' : P.Fired past') (horder : P.InOrder rank past)
    (horder' : P.InOrder rank past')
    (hmem : ∀ u, P.target u = some k → (u ∈ past.map Prod.fst ↔ u ∈ past'.map Prod.fst))
    (hvalue : ∀ u s t, P.target u = some k → (u, s) ∈ past → (u, t) ∈ past' →
      P.value u s = P.value u t) : P.get (P.after past) k = P.get (P.after past') k := by
  rw [h.get_after, h'.get_after]
  cases hfind : past.find? fun e => P.target e.1 = some k with
  | none =>
    have hnone : past'.find? (fun e => P.target e.1 = some k) = none := by
      refine List.find?_eq_none.2 fun e he htarget => ?_
      have hset := of_decide_eq_true htarget
      obtain ⟨e', he', heq⟩ := List.mem_map.1 ((hmem e.1 hset).2 (List.mem_map_of_mem he))
      have hnot := List.find?_eq_none.1 hfind e' he'
      rw [heq] at hnot
      exact hnot htarget
    rw [hnone]
  | some e =>
    have hset : P.target e.1 = some k := by simpa using List.find?_some hfind
    have he := List.mem_of_find?_eq_some hfind
    obtain ⟨e', he', heq⟩ := List.mem_map.1 ((hmem e.1 hset).1 (List.mem_map_of_mem he))
    cases hfind' : past'.find? fun e => P.target e.1 = some k with
    | none =>
      have hnot := List.find?_eq_none.1 hfind' e' he'
      rw [heq] at hnot
      exact absurd (decide_eq_true hset) hnot
    | some w =>
      have hsetw : P.target w.1 = some k := by simpa using List.find?_some hfind'
      have hw := List.mem_of_find?_eq_some hfind'
      obtain ⟨w', hw', heqw⟩ := List.mem_map.1 ((hmem w.1 hsetw).2 (List.mem_map_of_mem hw))
      have hmeet : P.Meet w.1 e.1 := .inl ⟨k, hsetw, .inl hset⟩
      have hmeet' : P.Meet e.1 w.1 := .inl ⟨k, hset, .inl hsetw⟩
      -- each of the two last writers is the other, or stands before it
      have hsame : e.1 = w.1 := by
        have hnew := eq_or_of_find? hfind horder hw' (by simpa [heqw] using hsetw)
        have hnew' := eq_or_of_find? hfind' horder' he' (by simpa [heq] using hset)
        rw [heqw] at hnew
        rw [heq] at hnew'
        rcases hnew with rfl | hlt
        · exact heqw
        · rcases hnew' with rfl | hlt'
          · exact heq.symm
          · have h₁ := hlt hmeet
            have h₂ := hlt' hmeet'
            omega
      have hw₂ : (e.1, w.2) ∈ past' := by
        rw [hsame]
        exact hw
      rw [Option.map_some, Option.map_some, hvalue e.1 e.2 w.2 hset he hw₂, hsame]

theorem outputs_eq (h : P.Fired past) (h' : P.Fired past') (hmatch : P.Matched past past' u)
    (hmatch' : P.Matched past' past u) : P.outputs past u = P.outputs past' u := by
  by_cases hu : u ∈ past.map Prod.fst
  · obtain ⟨⟨u, s⟩, hs, rfl⟩ := List.mem_map.1 hu
    obtain ⟨t, ht, halike⟩ := hmatch s hs
    rw [h.outputs_of_mem hs, h'.outputs_of_mem ht, P.output_congr halike]
  · have hnone : ∀ {l : History V σ}, u ∉ l.map Prod.fst → P.outputs l u = none := by
      intro l hl
      rw [Program.outputs, List.lookup_eq_none_iff.2, Option.map_none]
      intro e he
      rw [bne_iff_ne]
      rintro rfl
      exact hl (List.mem_map_of_mem he)
    rw [hnone hu, hnone]
    intro hmem
    obtain ⟨⟨u, t⟩, ht, rfl⟩ := List.mem_map.1 hmem
    obtain ⟨s, hs, -⟩ := hmatch' t ht
    exact hu (mem_fired hs)

omit [DecidableEq V] in
theorem mem_older {older older' newer' : History V σ}
    (horder : P.InOrder rank (newer ++ (v, s) :: older))
    (hsplit' : past' = newer' ++ (v, t) :: older') (horder' : P.InOrder rank past')
    (hmatch : ∀ u, rank u < rank v → P.Matched (newer ++ (v, s) :: older) past' u)
    (hset : P.target u = some k) (hreads : P.reads v k) (hu : u ∈ older.map Prod.fst) :
    u ∈ older'.map Prod.fst ∧ rank u < rank v := by
  obtain ⟨⟨u, r⟩, hr, rfl⟩ := List.mem_map.1 hu
  have hlt : rank u < rank v :=
    (List.pairwise_cons.1 (List.pairwise_append.1 horder).2.1).1 (u, r) hr
      (.inl ⟨k, hset, .inr hreads⟩)
  obtain ⟨r', hr', -⟩ := hmatch u hlt r (List.mem_append_right _ (List.mem_cons_of_mem _ hr))
  rw [hsplit'] at hr'
  refine ⟨?_, hlt⟩
  rcases List.mem_append.1 hr' with hnewer | hr'
  · rw [hsplit'] at horder'
    have hback := (List.pairwise_append.1 horder').2.2 (u, r') hnewer (v, t) List.mem_cons_self
      (.inr ⟨k, hset, hreads⟩)
    dsimp only at hback
    omega
  · rcases List.mem_cons.1 hr' with heq | hr'
    · cases heq
      exact absurd hlt (Nat.lt_irrefl _)
    · exact mem_fired hr'

theorem matched_of_lower (h : P.Fired past) (h' : P.Fired past') (hcomplete : P.Complete past')
    (horder : P.InOrder rank past) (horder' : P.InOrder rank past')
    (hrank : ∀ u v, P.leads u v → rank u < rank v)
    (hlower : ∀ u, rank u < rank v → P.Matched past past' u ∧ P.Matched past' past u) :
    P.Matched past past' v := by
  intro s hs
  obtain ⟨newer, older, rfl, hfired, hready, rfl⟩ := h.split hs
  have hready' : P.ready (P.outputs past') v := by
    have hmono : P.ready (P.outputs (newer ++ (v, P.after older) :: older)) v :=
      P.ready_mono (fun u o ho => by
        rw [List.append_cons] at h ⊢
        exact h.outputs_mono ho) hready
    refine P.ready_congr (fun u hu => ?_) hmono
    exact outputs_eq h h' (hlower u (hrank u v hu)).1 (hlower u (hrank u v hu)).2
  have hmem : v ∈ past'.map Prod.fst := by
    by_contra hnot
    exact hcomplete v hnot hready'
  obtain ⟨⟨v, t⟩, ht, rfl⟩ := List.mem_map.1 hmem
  obtain ⟨newer', older', hsplit', hfired', -, rfl⟩ := h'.split ht
  refine ⟨_, ht, fun k hreads => ?_⟩
  have hsub : older.Sublist (newer ++ (v, P.after older) :: older) :=
    (List.sublist_cons_self _ _).trans (List.sublist_append_right _ _)
  have hsub' : older'.Sublist past' := by
    rw [hsplit']
    exact (List.sublist_cons_self _ _).trans (List.sublist_append_right _ _)
  refine get_after_eq hfired hfired' (horder.sublist hsub) (horder'.sublist hsub')
    (fun u hset => ⟨fun hu => ?_, fun hu => ?_⟩) fun u s t hset hs ht => ?_
  · exact (mem_older horder hsplit' horder' (fun u hu => (hlower u hu).1) hset hreads hu).1
  · rw [hsplit'] at horder'
    refine (mem_older horder' rfl horder (fun u hu => ?_) hset hreads hu).1
    rw [← hsplit']
    exact (hlower u hu).2
  · have hlt := (mem_older horder hsplit' horder' (fun u hu => (hlower u hu).1) hset hreads
      (mem_fired hs)).2
    obtain ⟨r, hr, halike⟩ := (hlower u hlt).1 s (hsub.subset hs)
    rw [h'.unique hr (hsub'.subset ht)] at halike
    exact P.value_congr halike

theorem matched (h : P.Fired past) (h' : P.Fired past') (hcomplete : P.Complete past)
    (hcomplete' : P.Complete past') (horder : P.InOrder rank past)
    (horder' : P.InOrder rank past') (hrank : ∀ u v, P.leads u v → rank u < rank v) (v : V) :
    P.Matched past past' v ∧ P.Matched past' past v := by
  induction hn : rank v using Nat.strongRecOn generalizing v with
  | _ n ih =>
    subst hn
    have hlower : ∀ u, rank u < rank v → P.Matched past past' u ∧ P.Matched past' past u :=
      fun u hu => ih (rank u) hu u rfl
    exact ⟨matched_of_lower h h' hcomplete' horder horder' hrank hlower,
      matched_of_lower h' h hcomplete horder' horder hrank fun u hu => (hlower u hu).symm⟩

omit [DecidableEq V] in
theorem mem_iff (hmatch : ∀ v, P.Matched past past' v ∧ P.Matched past' past v) :
    v ∈ past.map Prod.fst ↔ v ∈ past'.map Prod.fst := by
  constructor
  · intro hv
    obtain ⟨⟨v, s⟩, hs, rfl⟩ := List.mem_map.1 hv
    obtain ⟨t, ht, -⟩ := (hmatch v).1 s hs
    exact mem_fired ht
  · intro hv
    obtain ⟨⟨v, s⟩, hs, rfl⟩ := List.mem_map.1 hv
    obtain ⟨t, ht, -⟩ := (hmatch v).2 s hs
    exact mem_fired ht

theorem final_eq (h : P.Fired past) (h' : P.Fired past') (horder : P.InOrder rank past)
    (horder' : P.InOrder rank past')
    (hmatch : ∀ v, P.Matched past past' v ∧ P.Matched past' past v) :
    P.get (P.after past) k = P.get (P.after past') k := by
  refine get_after_eq h h' horder horder' (fun u _ => mem_iff hmatch) fun u s t _ hs ht => ?_
  obtain ⟨r, hr, halike⟩ := (hmatch u).1 s hs
  rw [h'.unique hr ht] at halike
  exact P.value_congr halike

/-- Whatever is read off a vertex and what it reads is the same in both. -/
theorem map_perm (h : P.Fired past) (h' : P.Fired past')
    (hmatch : ∀ v, P.Matched past past' v ∧ P.Matched past' past v) (f : V → σ → γ)
    (hf : ∀ {v s t}, P.Alike v s t → f v s = f v t) :
    (past.map fun e => f e.1 e.2).Perm (past'.map fun e => f e.1 e.2) := by
  have hperm : (past.map Prod.fst).Perm (past'.map Prod.fst) :=
    (List.perm_ext_iff_of_nodup h.nodup h'.nodup).2 fun v => mem_iff hmatch
  let found (v : V) : Option γ := (past'.find? fun e => e.1 = v).map fun e => f v e.2
  have hfound : ∀ {v t}, (v, t) ∈ past' → found v = some (f v t) := by
    intro v t ht
    cases hfind : past'.find? fun e => e.1 = v with
    | none =>
      have hnot := List.find?_eq_none.1 hfind (v, t) ht
      simp at hnot
    | some e =>
      have he : e.1 = v := by simpa using List.find?_some hfind
      have hmem : (v, e.2) ∈ past' := by
        rw [← he]
        exact List.mem_of_find?_eq_some hfind
      simp only [found, hfind, Option.map_some, h'.unique ht hmem]
  have hleft : past.map (fun e => some (f e.1 e.2)) = (past.map Prod.fst).map found := by
    rw [List.map_map]
    refine List.map_congr_left fun e he => ?_
    obtain ⟨t, ht, halike⟩ := (hmatch e.1).1 e.2 he
    rw [Function.comp_apply, hfound ht, hf halike]
  have hright : past'.map (fun e => some (f e.1 e.2)) = (past'.map Prod.fst).map found := by
    rw [List.map_map]
    exact List.map_congr_left fun e he => (hfound he).symm
  have hall := hperm.map found
  rw [← hleft, ← hright] at hall
  have hmap := hall.filterMap id
  rw [List.filterMap_map, List.filterMap_map] at hmap
  simpa [Function.comp_def] using hmap

end UltraTorrent.Library.Dataflow
