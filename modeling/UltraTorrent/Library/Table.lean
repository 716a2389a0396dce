import Mathlib.Data.List.Nodup

/-! Database tables: rows filed under a primary key, no two under one key. -/
namespace UltraTorrent.Library

structure Table (α : Type*) {κ : Type*} (key : α → κ) where
  rows : List α
  nodup : (rows.map key).Nodup

namespace Table

variable {α κ : Type*} {key : α → κ} {t t' : Table α key} {a b : α} {k : κ} {p : α → Bool}

theorem eq_of_key (ha : a ∈ t.rows) (hb : b ∈ t.rows) (h : key a = key b) : a = b :=
  List.inj_on_of_nodup_map t.nodup ha hb h

/-- Changes every row by a function that keeps its key. -/
def update (t : Table α key) (f : α → α) (hf : ∀ a, key (f a) = key a := by intro _; rfl) :
    Table α key where
  rows := t.rows.map f
  nodup := by
    have hkeys : (t.rows.map f).map key = t.rows.map key := by
      rw [List.map_map]
      exact List.map_congr_left fun a _ => hf a
    rw [hkeys]
    exact t.nodup

theorem mem_update {f : α → α} (hf : ∀ a, key (f a) = key a) :
    b ∈ (t.update f hf).rows ↔ ∃ a ∈ t.rows, f a = b := List.mem_map

/-- Keeps the rows that pass. -/
def filter (t : Table α key) (p : α → Bool) : Table α key where
  rows := t.rows.filter p
  nodup := t.nodup.sublist (List.filter_sublist.map key)

theorem mem_filter : a ∈ (t.filter p).rows ↔ a ∈ t.rows ∧ p a := List.mem_filter

/-- Removes every row. -/
def clear (_ : Table α key) : Table α key := ⟨[], List.nodup_nil⟩

variable [DecidableEq κ]

/-- Removes the row filed under `k`. -/
def erase (t : Table α key) (k : κ) : Table α key where
  rows := t.rows.filter fun a => key a ≠ k
  nodup := t.nodup.sublist (List.filter_sublist.map key)

theorem mem_erase : a ∈ (t.erase k).rows ↔ a ∈ t.rows ∧ key a ≠ k := by
  simp [erase]

theorem erase_sublist : (t.erase k).rows.Sublist t.rows := List.filter_sublist

def find (t : Table α key) (k : κ) : Option α := t.rows.find? fun a => key a = k

theorem find_eq_some : t.find k = some a ↔ a ∈ t.rows ∧ key a = k := by
  refine ⟨fun h => ⟨List.mem_of_find?_eq_some h, by simpa using List.find?_some h⟩, ?_⟩
  rintro ⟨ha, hk⟩
  have hsome : (t.find k).isSome := by
    rw [find, List.find?_isSome]
    exact ⟨a, ha, by simpa using hk⟩
  obtain ⟨b, hb⟩ := Option.isSome_iff_exists.1 hsome
  have hbk : key b = k := by simpa using List.find?_some hb
  rw [hb, eq_of_key (List.mem_of_find?_eq_some hb) ha (hbk.trans hk.symm)]

theorem find_key (ha : a ∈ t.rows) : t.find (key a) = some a := find_eq_some.2 ⟨ha, rfl⟩

theorem find_erase (k l : κ) :
    (t.erase k).find l = if l = k then none else t.find l := by
  split_ifs with h
  · rw [Option.eq_none_iff_forall_ne_some]
    intro a ha
    obtain ⟨hmem, hkey⟩ := find_eq_some.1 ha
    exact (mem_erase.1 hmem).2 (hkey.trans h)
  · ext a
    rw [find_eq_some, find_eq_some, mem_erase]
    refine ⟨fun ha => ⟨ha.1.1, ha.2⟩, fun ha => ⟨⟨ha.1, ?_⟩, ha.2⟩⟩
    rw [ha.2]
    exact h

theorem find_update {f : α → α} (hf : ∀ a, key (f a) = key a) (k : κ) :
    (t.update f hf).find k = (t.find k).map f := by
  simp only [find, update, List.find?_map, Function.comp_def, hf]

/-- Changes the row filed under `k`. -/
def updateAt (t : Table α key) (k : κ) (f : α → α) (hf : ∀ a, key (f a) = key a := by intro _; rfl) :
    Table α key :=
  t.update (fun a => if key a = k then f a else a) fun a => by
    split_ifs
    · exact hf a
    · rfl

theorem find_updateAt_self {f : α → α} (hf : ∀ a, key (f a) = key a) :
    (t.updateAt k f hf).find k = (t.find k).map f := by
  rw [updateAt, find_update]
  cases h : t.find k with
  | none => rfl
  | some a => simp only [Option.map_some, if_pos (find_eq_some.1 h).2]

theorem find_updateAt_of_ne {f : α → α} (hf : ∀ a, key (f a) = key a) {l : κ} (h : l ≠ k) :
    (t.updateAt k f hf).find l = t.find l := by
  rw [updateAt, find_update]
  cases hl : t.find l with
  | none => rfl
  | some a => simp only [Option.map_some, if_neg ((find_eq_some.1 hl).2.trans_ne h)]

/-- A change that leaves a field alone leaves what is read of it. -/
theorem map_find_updateAt {β : Type*} {g : α → β} {f : α → α} (hf : ∀ a, key (f a) = key a)
    (hg : ∀ a, g (f a) = g a) (l : κ) : ((t.updateAt k f hf).find l).map g = (t.find l).map g := by
  by_cases h : l = k
  · rw [h, find_updateAt_self hf, Option.map_map]
    exact congrArg (fun g => (t.find k).map g) (funext hg)
  · rw [find_updateAt_of_ne hf h]

theorem isSome_find_updateAt {f : α → α} (hf : ∀ a, key (f a) = key a) (l : κ) :
    ((t.updateAt k f hf).find l).isSome = (t.find l).isSome := by
  rw [← Option.isSome_map (f := fun _ => ()), map_find_updateAt hf fun _ => rfl, Option.isSome_map]

theorem map_find_updateAt_set {β : Type*} {g : α → β} {f : α → α} {v : β} {row : α}
    (hf : ∀ a, key (f a) = key a) (hg : ∀ a, g (f a) = v) (hrow : t.find k = some row) (l : κ) :
    ((t.updateAt k f hf).find l).map g = if l = k then some v else (t.find l).map g := by
  by_cases h : l = k
  · rw [if_pos h, h, find_updateAt_self hf, hrow, Option.map_some, Option.map_some, hg]
  · rw [if_neg h, find_updateAt_of_ne hf h]

theorem find_foldl_updateAt {ι : Type*} {k : ι → κ} {f : ι → α → α} (hf : ∀ i a, key (f i a) = key a)
    {changes : List ι} (hnodup : (changes.map k).Nodup) (t : Table α key) :
    (∀ i ∈ changes, (changes.foldl (fun t i => t.updateAt (k i) (f i) (hf i)) t).find (k i) =
      (t.find (k i)).map (f i)) ∧
    ∀ l ∉ changes.map k, (changes.foldl (fun t i => t.updateAt (k i) (f i) (hf i)) t).find l = t.find l := by
  induction changes generalizing t with
  | nil => exact ⟨nofun, fun _ _ => rfl⟩
  | cons c rest ih =>
    rw [List.map_cons, List.nodup_cons] at hnodup
    obtain ⟨hown, hother⟩ := ih hnodup.2 (t.updateAt (k c) (f c) (hf c))
    refine ⟨fun i hi => ?_, fun l hl => ?_⟩
    · rcases List.mem_cons.1 hi with rfl | hi
      · rw [List.foldl_cons, hother _ hnodup.1, find_updateAt_self (hf i)]
      · have hne : k i ≠ k c := fun heq => hnodup.1 (heq ▸ List.mem_map_of_mem hi)
        rw [List.foldl_cons, hown i hi, find_updateAt_of_ne (hf c) hne]
    · rw [List.map_cons, List.mem_cons, not_or] at hl
      rw [List.foldl_cons, hother l hl.2, find_updateAt_of_ne (hf c) hl.1]

theorem mem_updateAt {f : α → α} (hf : ∀ a, key (f a) = key a) (h : b ∈ (t.updateAt k f hf).rows) :
    b ∈ t.rows ∨ ∃ a ∈ t.rows, key a = k ∧ f a = b := by
  obtain ⟨a, ha, rfl⟩ := (mem_update _).1 h
  by_cases hk : key a = k
  · exact .inr ⟨a, ha, hk, (if_pos hk).symm⟩
  · rw [if_neg hk]
    exact .inl ha

/-- Files new rows; refused when that would put two under one key. -/
def insert (t : Table α key) (new : List α) : Option (Table α key) :=
  if h : ((t.rows ++ new).map key).Nodup then some ⟨t.rows ++ new, h⟩ else none

/-- A row under a key not yet taken is not refused. -/
theorem insert_singleton_isSome (h : ∀ b ∈ t.rows, key b ≠ key a) : (t.insert [a]).isSome := by
  have hnodup : ((t.rows ++ [a]).map key).Nodup := by
    rw [List.map_append, List.map_singleton, List.nodup_append]
    refine ⟨t.nodup, List.nodup_singleton _, ?_⟩
    intro k hk l hl
    obtain ⟨b, hb, rfl⟩ := List.mem_map.1 hk
    rw [List.mem_singleton.1 hl]
    exact h b hb
  rw [insert, dif_pos hnodup]
  rfl

theorem rows_of_insert {new : List α} (h : t.insert new = some t') : t'.rows = t.rows ++ new := by
  unfold insert at h
  split_ifs at h
  rw [← Option.some.inj h]

theorem find_of_insert {new : List α} (h : t.insert new = some t') (ha : t.find k = some a) :
    t'.find k = some a := by
  obtain ⟨hmem, hk⟩ := find_eq_some.1 ha
  refine find_eq_some.2 ⟨?_, hk⟩
  rw [rows_of_insert h]
  exact List.mem_append_left _ hmem

theorem find_of_insert_new {new : List α} (h : t.insert new = some t') (ha : a ∈ new) :
    t'.find (key a) = some a := by
  refine find_key ?_
  rw [rows_of_insert h]
  exact List.mem_append_right _ ha

theorem find_of_insert_old {new : List α} (h : t.insert new = some t') (hk : k ∉ new.map key) :
    t'.find k = t.find k := by
  cases hfind : t.find k with
  | some a => exact find_of_insert h hfind
  | none =>
    rw [Option.eq_none_iff_forall_ne_some]
    intro a ha
    obtain ⟨hmem, rfl⟩ := find_eq_some.1 ha
    rw [rows_of_insert h, List.mem_append] at hmem
    rcases hmem with hold | hnew
    · rw [find_key hold] at hfind
      cases hfind
    · exact hk (List.mem_map_of_mem hnew)

theorem find_eq_none_of_insert {new : List α} (h : t.insert new = some t') (ha : a ∈ new) :
    t.find (key a) = none := by
  rw [Option.eq_none_iff_forall_ne_some]
  intro b hb
  have hnodup := t'.nodup
  rw [rows_of_insert h, List.map_append, List.nodup_append] at hnodup
  obtain ⟨hmem, hkey⟩ := find_eq_some.1 hb
  exact hnodup.2.2 _ (List.mem_map_of_mem hmem) _ (List.mem_map_of_mem ha) hkey

/-- Files a row, unless its key is taken. -/
def addMissing (t : Table α key) (a : α) : Table α key := (t.insert [a]).getD t

theorem find_addMissing (a : α) (k : κ) :
    (t.addMissing a).find k = (t.find k).or (if key a = k then some a else none) := by
  unfold addMissing
  cases hinsert : t.insert [a] with
  | some t' =>
    rw [Option.getD_some]
    split_ifs with hk
    · rw [← hk, find_of_insert_new hinsert List.mem_cons_self,
        find_eq_none_of_insert hinsert List.mem_cons_self, Option.none_or]
    · rw [find_of_insert_old hinsert (by simpa using fun h => hk h.symm), Option.or_none]
  | none =>
    rw [Option.getD_none]
    split_ifs with hk
    · cases hfind : t.find k with
      | some b => rw [Option.some_or]
      | none =>
        have hsome := insert_singleton_isSome (t := t) (a := a) fun b hb hkey => by
          rw [← hk, ← hkey, find_key hb] at hfind
          cases hfind
        rw [hinsert] at hsome
        cases hsome
    · rw [Option.or_none]

/-- Files the rows whose keys are not taken. -/
def addMissings (t : Table α key) (new : List α) : Table α key := new.foldl addMissing t

theorem find_addMissings (new : List α) (k : κ) :
    (t.addMissings new).find k = (t.find k).or (new.find? fun a => key a = k) := by
  induction new generalizing t with
  | nil => exact (Option.or_none).symm
  | cons a new ih =>
    change ((t.addMissing a).addMissings new).find k = _
    rw [ih, find_addMissing, Option.or_assoc, List.find?_cons]
    by_cases hk : key a = k
    · rw [if_pos hk, Option.some_or, decide_eq_true hk]
    · rw [if_neg hk, Option.none_or, decide_eq_false hk]

/-- A field read row by row, for one key. -/
theorem filterMap_key {β : Type*} (t : Table α key) (k : κ) (g : α → β) :
    (t.rows.filterMap fun a => if key a = k then some (g a) else none) =
      ((t.find k).map g).toList := by
  obtain ⟨rows, hnodup⟩ := t
  simp only [find]
  induction rows with
  | nil => rfl
  | cons a rows ih =>
    rw [List.map_cons, List.nodup_cons] at hnodup
    by_cases hk : key a = k
    · have hrest : (rows.filterMap fun a => if key a = k then some (g a) else none) = [] := by
        rw [List.filterMap_eq_nil_iff]
        intro b hb
        rw [if_neg]
        rintro rfl
        exact hnodup.1 (hk ▸ List.mem_map_of_mem hb)
      simp only [List.filterMap_cons, if_pos hk, hrest, List.find?_cons_of_pos, decide_eq_true hk]
      rfl
    · simp only [List.filterMap_cons, if_neg hk, List.find?_cons, decide_eq_false hk]
      exact ih hnodup.2

end Table

end UltraTorrent.Library
