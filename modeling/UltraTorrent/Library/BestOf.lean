import Mathlib.Data.List.MinMax
import UltraTorrent.Library.Keyed

/-! The best entry of each key: entries are filed one after another, and one takes the place of
another only when it is better. Of several that are as good the first one stays. -/
namespace UltraTorrent.Library.BestOf

variable {α κ β : Type*} [DecidableEq κ] [LinearOrder β] (key : α → κ) (rank : α → β)

/-- What is filed after one more entry is offered. -/
def keep (filed : List α) (a : α) : List α :=
  match filed.find? (key · = key a) with
  | none => Keyed.upsert key a filed
  | some prev => if rank prev < rank a then Keyed.upsert key a filed else filed

def best (l : List α) : List α := l.foldl (keep key rank) []

/-- No entry of its key is better. -/
def IsBest (l : List α) (a : α) : Prop := a ∈ l ∧ ∀ b ∈ l, key b = key a → rank b ≤ rank a

def under (l : List α) (k : κ) : List α := l.filter (key · = k)

variable {key rank} {l front : List α} {a b : α} {k : κ}

theorem mem_under : a ∈ under key l k ↔ a ∈ l ∧ key a = k := by
  simp [under]

theorem under_append (front l : List α) (k : κ) :
    under key (front ++ l) k = under key front k ++ under key l k :=
  List.filter_append ..

theorem under_singleton (a : α) (k : κ) : under key [a] k = if key a = k then [a] else [] := by
  simp [under, List.filter_singleton]

theorem find?_upsert (a : α) (l : List α) (k : κ) : (Keyed.upsert key a l).find? (key · = k) =
    if key a = k then some a else l.find? (key · = k) := by
  have hmod : (Keyed.modifyAt key (key a) (fun _ => a) l).find? (key · = k) =
      if key a = k then (if key a ∈ l.map key then some a else none)
      else l.find? (key · = k) := by
    induction l with
    | nil => simp [Keyed.modifyAt]
    | cons b l ih =>
      rw [Keyed.modifyAt] at ih ⊢
      rw [List.map_cons, List.find?_cons, List.find?_cons, ih]
      by_cases hb : key b = key a
      · by_cases hk : key a = k
        · simp [hb, hk]
        · simp [hb, hk]
      · by_cases hk : key a = k
        · have hbk : key b ≠ k := fun h => hb (h.trans hk.symm)
          simp [hk, hbk, Ne.symm hbk]
        · simp [hb, hk]
  unfold Keyed.upsert
  split_ifs with hmem hk hk
  · rw [hmod, if_pos hk, if_pos hmem]
  · rw [hmod, if_neg hk]
  · have hnone : l.find? (key · = k) = none := by
      rw [List.find?_eq_none]
      intro b hb hkey
      exact hmem (List.mem_map.2 ⟨b, hb, (of_decide_eq_true hkey).trans hk.symm⟩)
    rw [List.find?_append, hnone]
    simp [hk]
  · simp [List.find?_append, hk]

theorem find?_keep (filed : List α) (a : α) (k : κ) : (keep key rank filed a).find? (key · = k) =
    if key a = k then
      match filed.find? (key · = k) with
      | none => some a
      | some prev => if rank prev < rank a then some a else some prev
    else filed.find? (key · = k) := by
  unfold keep
  by_cases hk : key a = k
  · subst hk
    cases hprev : filed.find? (key · = key a) with
    | none => simp [find?_upsert]
    | some prev =>
      by_cases hlt : rank prev < rank a
      · simp [hlt, find?_upsert]
      · simp [hlt, hprev]
  · rw [if_neg hk]
    split
    · rw [find?_upsert, if_neg hk]
    · split_ifs
      · rw [find?_upsert, if_neg hk]
      · rfl

/-- What is filed under a key is the first of its best entries. -/
theorem find?_best (l : List α) (k : κ) :
    (best key rank l).find? (key · = k) = (under key l k).argmax rank := by
  induction l using List.reverseRec with
  | nil => rfl
  | append_singleton l a ih =>
    rw [best, List.foldl_append, List.foldl_cons, List.foldl_nil, ← best, find?_keep, ih,
      under_append, under_singleton]
    by_cases hk : key a = k
    · rw [if_pos hk, if_pos hk, List.argmax_concat]
      cases (under key l k).argmax rank <;> rfl
    · rw [if_neg hk, if_neg hk, List.append_nil]

theorem nodup_best (l : List α) : ((best key rank l).map key).Nodup := by
  induction l using List.reverseRec with
  | nil => exact List.nodup_nil
  | append_singleton l a ih =>
    rw [best, List.foldl_append, List.foldl_cons, List.foldl_nil, ← best]
    have hup : ((Keyed.upsert key a (best key rank l)).map key).Nodup := by
      unfold Keyed.upsert
      split_ifs with hmem
      · rw [Keyed.modifyAt, List.map_map]
        have hmap : (best key rank l).map (key ∘ fun b => if key b = key a then a else b) =
            (best key rank l).map key := by
          apply List.map_congr_left
          intro b _
          show key (if key b = key a then a else b) = key b
          split_ifs with hb
          · exact hb.symm
          · rfl
        rw [hmap]
        exact ih
      · rw [List.map_append, List.map_singleton]
        exact ih.append (List.nodup_singleton _) (by simpa using hmem)
    unfold keep
    split
    · exact hup
    · split_ifs
      · exact hup
      · exact ih

theorem mem_best : a ∈ best key rank l ↔ (under key l (key a)).argmax rank = some a := by
  rw [← find?_best]
  constructor
  · intro ha
    cases hfind : (best key rank l).find? (key · = key a) with
    | none =>
      rw [List.find?_eq_none] at hfind
      exact absurd (decide_eq_true rfl) (hfind a ha)
    | some b =>
      have hb := List.mem_of_find?_eq_some hfind
      have hkey : key b = key a := by simpa using List.find?_some hfind
      rw [List.inj_on_of_nodup_map (nodup_best l) hb ha hkey]
  · exact fun h => List.mem_of_find?_eq_some h

theorem isBest_of_mem (h : a ∈ best key rank l) : IsBest key rank l a := by
  have hmax := mem_best.1 h
  refine ⟨(mem_under.1 (List.argmax_mem hmax)).1, fun b hb hkey => ?_⟩
  exact List.le_of_mem_argmax (mem_under.2 ⟨hb, hkey⟩) hmax

theorem exists_best (ha : a ∈ l) : ∃ b ∈ best key rank l, key b = key a := by
  cases hmax : (under key l (key a)).argmax rank with
  | none =>
    rw [List.argmax_eq_none] at hmax
    exact absurd (mem_under.2 ⟨ha, rfl⟩) (hmax ▸ List.not_mem_nil)
  | some b =>
    have hkey := (mem_under.1 (List.argmax_mem hmax)).2
    exact ⟨b, mem_best.2 (hkey ▸ hmax), hkey⟩

omit [DecidableEq κ] in
theorem IsBest.rank_eq (ha : IsBest key rank l a) (hb : IsBest key rank l b) (hkey : key a = key b) :
    rank a = rank b :=
  le_antisymm (hb.2 a ha.1 hkey) (ha.2 b hb.1 hkey.symm)

omit [DecidableEq κ] in
theorem IsBest.congr {l' : List α} (hmem : ∀ b, b ∈ l ↔ b ∈ l') (h : IsBest key rank l a) :
    IsBest key rank l' a :=
  ⟨(hmem a).1 h.1, fun b hb => h.2 b ((hmem b).2 hb)⟩

theorem argmax_cons_of_le (h : ∀ b ∈ l, rank b ≤ rank a) : (a :: l).argmax rank = some a := by
  rw [List.argmax_cons]
  cases hmax : l.argmax rank with
  | none => rfl
  | some c => exact if_neg (not_lt.2 (h c (List.argmax_mem hmax)))

theorem mem_front (hfront : ∀ c ∈ front, IsBest key rank l c) (ha : a ∈ front)
    (hb : b ∈ best key rank (front ++ l)) (hkey : key b = key a) : b ∈ front := by
  have hmax := mem_best.1 hb
  rw [under_append] at hmax
  cases hunder : under key front (key b) with
  | nil => exact absurd (mem_under.2 ⟨ha, hkey.symm⟩) (hunder ▸ List.not_mem_nil)
  | cons c rest =>
    have hc := mem_under.1 (hunder ▸ List.mem_cons_self : c ∈ under key front (key b))
    rw [hunder, List.cons_append, argmax_cons_of_le] at hmax
    · rw [← Option.some_inj.1 hmax]
      exact hc.1
    · intro d hd
      have hdl : d ∈ l ∧ key d = key b := by
        rcases List.mem_append.1 hd with hd | hd
        · have hd := mem_under.1 (hunder ▸ List.mem_cons_of_mem c hd : d ∈ under key front (key b))
          exact ⟨(hfront d hd.1).1, hd.2⟩
        · exact mem_under.1 hd
      exact (hfront c hc.1).2 d hdl.1 (hdl.2.trans hc.2.symm)

theorem best_cons_perm (h : IsBest key rank l a) :
    (best key rank (a :: l)).Perm (a :: (best key rank l).filter (key · ≠ key a)) := by
  have hnodup : ∀ l : List α, (best key rank l).Nodup := fun l => (nodup_best l).of_map
  rw [List.perm_ext_iff_of_nodup (hnodup _)]
  · intro b
    rw [List.mem_cons, List.mem_filter, mem_best, mem_best,
      show a :: l = [a] ++ l from rfl, under_append, under_singleton]
    by_cases hb : key a = key b
    · rw [if_pos hb, List.singleton_append, argmax_cons_of_le]
      · simp [hb, eq_comm]
      · intro c hc
        obtain ⟨hc, hkey⟩ := mem_under.1 hc
        exact h.2 c hc (hkey.trans hb.symm)
    · have hne : b ≠ a := fun heq => hb (by rw [heq])
      simp [hb, hne, Ne.symm hb]
  · rw [List.nodup_cons]
    refine ⟨?_, (hnodup l).filter _⟩
    simp

theorem best_perm (h : a ∈ best key rank l) :
    (best key rank l).Perm (a :: (best key rank l).filter (key · ≠ key a)) := by
  have hnodup : (best key rank l).Nodup := (nodup_best l).of_map
  rw [List.perm_ext_iff_of_nodup hnodup]
  · intro b
    by_cases hb : key b = key a
    · have hba : b ∈ best key rank l ↔ b = a :=
        ⟨fun hmem => List.inj_on_of_nodup_map (nodup_best l) hmem h hb, fun heq => heq ▸ h⟩
      simp [hb, hba]
    · have hne : b ≠ a := fun heq => hb (by rw [heq])
      simp [hb, hne]
  · rw [List.nodup_cons]
    exact ⟨by simp, hnodup.filter _⟩

end UltraTorrent.Library.BestOf
