import UltraTorrent.Cleanup.CandidateDiscovery
import Mathlib.Data.List.Nodup

/-! What a run that ends as completed has looked at. Other items come and go between its pages, and a
page is found from the last row of the one before. -/
namespace UltraTorrent.Cleanup.CompletedScans

open Library.EcmaScript
open PolicyDocument PolicyEvaluator FactAssembly CandidateDiscovery

structure Evaluation where
  read : PageRead
  row : ItemRow
  file : RawMediaFile

/-- The files of an item up to the one at which the cap ends them. -/
def filesWithin (cap : Option ℕ) : ℕ → List RawMediaFile → List RawMediaFile
  | _, [] => []
  | evaluated, file :: files =>
    if capReached cap evaluated then [] else file :: filesWithin cap (evaluated + 1) files

def onItems (cap : Option ℕ) (read : PageRead) : ℕ → List ItemRow → List Evaluation
  | _, [] => []
  | evaluated, row :: rows =>
    let files := filesWithin cap evaluated row.files
    files.map (⟨read, row, ·⟩) ++ onItems cap read (evaluated + files.length) rows

/-- What the pages from a cursor on are evaluated on, in the order it happens. -/
def evaluations (cap : Option ℕ) (admits : ItemRow → Bool) :
    List PageRead → Option String → ℕ → List Evaluation
  | [], _, _ => []
  | read :: reads, cursor, evaluated =>
    let items := findMany admits cursor read.table
    match items.getLast? with
    | none => []
    | some last =>
      if read.status = .cancelling then []
      else
        let here := onItems cap read evaluated items
        if items.length < pageSize ∨ capReached cap (evaluated + here.length) then here
        else here ++ evaluations cap admits reads (some last.id) (evaluated + here.length)

def everything (read : PageRead) (items : List ItemRow) : List Evaluation :=
  items.flatMap fun row => row.files.map (⟨read, row, ·⟩)

/-! ### The scan evaluates these files -/

section Loop

variable (rt : Runtime) (run : CleanupRun) (conditions : PolicyConditionNode)

def candidate (e : Evaluation) : Option CleanupCandidate :=
  let verdict := verdictOf rt conditions e.read e.row e.file
  if verdict.outcome = .no then none else some (candidateOf run e.row e.file verdict)

/-- From one scan to a later one: what was evaluated, and that it was all there was unless the cap
got in the way. -/
structure Scanned (before after : Scan) (here all : List Evaluation) : Prop where
  cursor : after.cursor = before.cursor
  evaluated : after.evaluated = before.evaluated + here.length
  candidates : after.candidates = before.candidates ++ here.filterMap (candidate rt run conditions)
  whole : after.truncated = false → before.truncated = false ∧ here = all

variable {rt run conditions} {cap : Option ℕ} {read : PageRead} {row : ItemRow} {file : RawMediaFile}
  {s s' s'' : Scan} {here here' all all' : List Evaluation}

theorem Scanned.refl (s : Scan) : Scanned rt run conditions s s [] [] :=
  ⟨rfl, rfl, by simp, fun h => ⟨h, rfl⟩⟩

theorem Scanned.trans (h : Scanned rt run conditions s s' here all)
    (h' : Scanned rt run conditions s' s'' here' all') :
    Scanned rt run conditions s s'' (here ++ here') (all ++ all') where
  cursor := h'.cursor.trans h.cursor
  evaluated := by rw [h'.evaluated, h.evaluated, List.length_append, Nat.add_assoc]
  candidates := by rw [h'.candidates, h.candidates, List.filterMap_append, List.append_assoc]
  whole := fun hwhole => by
    obtain ⟨htruncated, rfl⟩ := h'.whole hwhole
    obtain ⟨hfirst, rfl⟩ := h.whole htruncated
    exact ⟨hfirst, rfl⟩

variable (rt run conditions cap read row)

theorem scanned_scanFile (s : Scan) (file : RawMediaFile) :
    Scanned rt run conditions s
      (scanFile rt run conditions read row { s with scanned := s.scanned + 1 } file)
      [⟨read, row, file⟩] [⟨read, row, file⟩] := by
  by_cases hno : (verdictOf rt conditions read row file).outcome = .no
  · constructor <;> simp [scanFile, candidate, hno]
  · constructor <;> simp [scanFile, candidate, hno]

theorem scanned_scanFiles (s : Scan) (files : List RawMediaFile) :
    Scanned rt run conditions s (scanFiles rt run conditions cap read row s files)
      ((filesWithin cap s.evaluated files).map (⟨read, row, ·⟩)) (files.map (⟨read, row, ·⟩)) := by
  induction files generalizing s with
  | nil => exact .refl s
  | cons file files ih =>
    rw [scanFiles, filesWithin]
    dsimp only
    by_cases hcap : capReached cap s.evaluated = true
    · rw [if_pos hcap, if_pos hcap]
      exact ⟨rfl, rfl, by simp, fun h => absurd h (by simp)⟩
    · rw [if_neg hcap, if_neg hcap]
      have hfile := scanned_scanFile rt run conditions read row s file
      have hrest := hfile.trans (ih _)
      rw [hfile.evaluated] at hrest
      exact hrest

theorem scanned_items (s : Scan) (items : List ItemRow) :
    Scanned rt run conditions s
      (items.foldl (fun s row => scanFiles rt run conditions cap read row s row.files) s)
      (onItems cap read s.evaluated items) (everything read items) := by
  induction items generalizing s with
  | nil => exact .refl s
  | cons row items ih =>
    have hrow := scanned_scanFiles rt run conditions cap read row s row.files
    have hrest := hrow.trans (ih _)
    rw [hrow.evaluated, List.length_map] at hrest
    exact hrest

theorem finish_eq (cap : Option ℕ) (s : Scan) :
    ∃ status reason, finish cap s = .finished status reason s ∧
    (s.truncated = false → status = .completed) ∧ (s.truncated = true → status = .partly) := by
  unfold finish
  split_ifs with htruncated
  · exact ⟨_, _, rfl, fun h => absurd (h.symm.trans htruncated) nofun, fun _ => rfl⟩
  · exact ⟨_, _, rfl, fun _ => rfl, fun h => absurd h htruncated⟩

/-- The scan after the rows of a page, and after all pages that follow it. -/
theorem scanPages_cons (admits : ItemRow → Bool) (read : PageRead) (reads : List PageRead) (s : Scan) :
    (findMany admits s.cursor read.table = [] ∧
      scanPages rt run conditions cap admits (read :: reads) s = finish cap s ∧
      evaluations cap admits (read :: reads) s.cursor s.evaluated = []) ∨
    ∃ last, (findMany admits s.cursor read.table).getLast? = some last ∧
      (scanPages rt run conditions cap admits (read :: reads) s =
          .finished .cancelled none { s with cursor := some last.id } ∧
        evaluations cap admits (read :: reads) s.cursor s.evaluated = [] ∨
      ∃ s' here, Scanned rt run conditions { s with cursor := some last.id } s' here
          (everything read (findMany admits s.cursor read.table)) ∧
        ((scanPages rt run conditions cap admits (read :: reads) s = finish cap s' ∧
            (findMany admits s.cursor read.table).length < pageSize ∨
          scanPages rt run conditions cap admits (read :: reads) s =
            finish cap { s' with truncated := true }) ∧
          evaluations cap admits (read :: reads) s.cursor s.evaluated = here ∨
        scanPages rt run conditions cap admits (read :: reads) s =
            scanPages rt run conditions cap admits reads s' ∧
          pageSize ≤ (findMany admits s.cursor read.table).length ∧
          evaluations cap admits (read :: reads) s.cursor s.evaluated =
            here ++ evaluations cap admits reads s'.cursor s'.evaluated)) := by
  rw [scanPages, evaluations, scanPage]
  cases hlast : (findMany admits s.cursor read.table).getLast? with
  | none =>
    obtain ⟨status, reason, hfinish, -⟩ := finish_eq cap s
    exact .inl ⟨List.getLast?_eq_none_iff.1 hlast, by simp only [hfinish], rfl⟩
  | some last =>
    refine .inr ⟨last, rfl, ?_⟩
    dsimp only
    by_cases hcancel : read.status = .cancelling
    · rw [if_pos hcancel, if_pos hcancel]
      exact .inl ⟨rfl, rfl⟩
    · rw [if_neg hcancel, if_neg hcancel]
      have hpage := scanned_items rt run conditions cap read { s with cursor := some last.id }
        (findMany admits s.cursor read.table)
      generalize List.foldl (fun s row => scanFiles rt run conditions cap read row s row.files)
        { s with cursor := some last.id } (findMany admits s.cursor read.table) = s' at hpage ⊢
      have hevaluated : s'.evaluated = s.evaluated + (onItems cap read s.evaluated
        (findMany admits s.cursor read.table)).length := hpage.evaluated
      refine .inr ⟨s', _, hpage, ?_⟩
      by_cases hshort : (findMany admits s.cursor read.table).length < pageSize
      · obtain ⟨status, reason, hfinish, -⟩ := finish_eq cap s'
        rw [if_pos hshort, if_pos (Or.inl hshort)]
        exact .inl ⟨.inl ⟨by simp only [hfinish], hshort⟩, rfl⟩
      · rw [if_neg hshort]
        by_cases hcap : capReached cap s'.evaluated = true
        · obtain ⟨status, reason, hfinish, -⟩ := finish_eq cap { s' with truncated := true }
          rw [if_pos hcap, if_pos (Or.inr (hevaluated ▸ hcap))]
          exact .inl ⟨.inr (by simp only [hfinish]), rfl⟩
        · rw [if_neg hcap, if_neg (not_or.2 ⟨hshort, hevaluated ▸ hcap⟩)]
          refine .inr ⟨rfl, not_lt.1 hshort, ?_⟩
          rw [hpage.cursor, hevaluated]

theorem scanPages_evaluations (admits : ItemRow → Bool) (reads : List PageRead) (s : Scan) :
    (scanPages rt run conditions cap admits reads s).scan.evaluated =
        s.evaluated + (evaluations cap admits reads s.cursor s.evaluated).length ∧
      (scanPages rt run conditions cap admits reads s).scan.candidates =
        s.candidates ++ (evaluations cap admits reads s.cursor s.evaluated).filterMap
          (candidate rt run conditions) := by
  have hfinish : ∀ s : Scan, (finish cap s).scan = s := by
    intro s
    obtain ⟨status, reason, heq, -⟩ := finish_eq cap s
    rw [heq, Progress.scan]
  induction reads generalizing s with
  | nil => simp [scanPages, evaluations, Progress.scan]
  | cons read reads ih =>
    rcases scanPages_cons rt run conditions cap admits read reads s with
        ⟨-, hpages, hnone⟩ | ⟨last, -, ⟨hpages, hnone⟩ | ⟨s', here, hpage, ⟨⟨hpages, -⟩ | hpages, heval⟩ | ⟨hpages, -, heval⟩⟩⟩
    · simp [hpages, hnone, hfinish]
    · simp [hpages, hnone, Progress.scan]
    · rw [hpages, heval, hfinish]
      exact ⟨hpage.evaluated, hpage.candidates⟩
    · rw [hpages, heval, hfinish]
      exact ⟨hpage.evaluated, hpage.candidates⟩
    · obtain ⟨hevaluated, hcandidates⟩ := ih s'
      rw [hpages, heval, hevaluated, hcandidates, hpage.evaluated, hpage.candidates]
      simp [Nat.add_assoc]

end Loop

/-! ### What is on the pages -/

/-- A table as the database keeps it: in the order of its ids, the files of a row under distinct
ids. -/
structure Stored (ordered : String → String → Prop) (table : List ItemRow) : Prop where
  sorted : table.Pairwise (ordered ·.id ·.id)
  files : ∀ row ∈ table, (row.files.map (·.id)).Nodup

/-- An item is there, satisfies the filter and has the file. -/
def Holds (admits : ItemRow → Bool) (item file : String) (table : List ItemRow) : Prop :=
  ∃ row ∈ table, row.id = item ∧ admits row = true ∧ ∃ f ∈ row.files, f.id = file

theorem Stored.sublist {ordered : String → String → Prop} {table rows : List ItemRow}
    (h : Stored ordered table) (hsub : rows.Sublist table) : Stored ordered rows :=
  ⟨h.sorted.sublist hsub, fun row hrow => h.files row (hsub.subset hrow)⟩

/-- Every page still finds the last row of the page before, and finds it satisfying the filter. -/
def CursorsKept (admits : ItemRow → Bool) : Option String → List PageRead → Prop
  | _, [] => True
  | cursor, read :: reads =>
    (∀ id ∈ cursor, ∃ row ∈ read.table, row.id = id ∧ admits row = true) ∧
      ((findMany admits cursor read.table).length < pageSize ∨
        CursorsKept admits ((findMany admits cursor read.table).getLast?.map (·.id)) reads)

/-- How often a file was evaluated. -/
def times (item file : String) (es : List Evaluation) : ℕ :=
  es.countP fun e => e.row.id = item && e.file.id = file

variable {ordered : String → String → Prop} [IsStrictOrder String ordered] {admits : ItemRow → Bool}
  {item file : String} {table items : List ItemRow} {cursor : Option String} {read : PageRead}
  {row : ItemRow}

theorem times_append (es es' : List Evaluation) :
    times item file (es ++ es') = times item file es + times item file es' :=
  List.countP_append

theorem times_everything_cons (row : ItemRow) (items : List ItemRow) :
    times item file (everything read (row :: items)) =
      (if row.id = item then (row.files.map (·.id)).count file else 0) +
        times item file (everything read items) := by
  rw [everything, List.flatMap_cons, times_append, ← everything, times, List.countP_map]
  congr 1
  split_ifs with hid
  · rw [List.count, List.countP_map]
    apply List.countP_congr
    intro f _
    simp [hid]
  · simp [hid]

theorem times_eq_zero (h : ∀ row ∈ items, row.id ≠ item) :
    times item file (everything read items) = 0 := by
  induction items with
  | nil => rfl
  | cons row items ih =>
    rw [times_everything_cons, if_neg (h row List.mem_cons_self),
      ih fun r hr => h r (List.mem_cons_of_mem _ hr)]

theorem Stored.times_eq_one (h : Stored ordered items) (hmem : row ∈ items) (hid : row.id = item)
    (hfile : ∃ f ∈ row.files, f.id = file) : times item file (everything read items) = 1 := by
  induction items with
  | nil => exact absurd hmem List.not_mem_nil
  | cons r items ih =>
    obtain ⟨hfirst, hrest⟩ := List.pairwise_cons.1 h.sorted
    rw [times_everything_cons]
    rcases List.mem_cons.1 hmem with rfl | hmem
    · have hothers : ∀ r ∈ items, r.id ≠ item := by
        rintro r hr rfl
        exact irrefl_of ordered r.id (hid ▸ hfirst r hr)
      obtain ⟨f, hf, rfl⟩ := hfile
      rw [if_pos hid, times_eq_zero hothers, List.nodup_iff_count_eq_one.1
        (h.files row List.mem_cons_self) _ (List.mem_map.2 ⟨f, hf, rfl⟩)]
    · have hne : r.id ≠ item := by
        rintro rfl
        exact irrefl_of ordered row.id (hid ▸ hfirst row hmem)
      rw [if_neg hne, Nat.zero_add]
      exact ih ⟨hrest, fun r hr => h.files r (List.mem_cons_of_mem _ hr)⟩ hmem

/-- A page is the first of the rows that satisfy the filter behind the cursor. -/
theorem Stored.findMany_eq (h : Stored ordered table)
    (hcursor : ∀ id ∈ cursor, ∃ row ∈ table, row.id = id ∧ admits row = true) :
    ∃ rows, findMany admits cursor table = rows.take pageSize ∧ Stored ordered rows ∧
      ∀ row, row ∈ rows ↔ row ∈ table ∧ admits row = true ∧ ∀ id ∈ cursor, ordered id row.id := by
  have hfilter : ∀ rows : List ItemRow, rows.Sublist table → Stored ordered (rows.filter admits) := by
    intro rows hsub
    exact h.sublist (List.filter_sublist.trans hsub)
  cases cursor with
  | none =>
    exact ⟨table.filter admits, rfl, hfilter table (List.Sublist.refl _), fun row => by simp⟩
  | some id =>
    obtain ⟨last, hlast, rfl, hadmits⟩ := hcursor id rfl
    obtain ⟨front, rest, rfl⟩ := List.append_of_mem hlast
    obtain ⟨-, hsorted, hcross⟩ := List.pairwise_append.1 h.sorted
    have hbehind := (List.pairwise_cons.1 hsorted).1
    have hfront : ∀ r ∈ front, ordered r.id last.id :=
      fun r hr => hcross r hr last List.mem_cons_self
    have hdrop : (front ++ last :: rest).dropWhile (fun r => decide (r.id ≠ last.id)) =
        last :: rest := by
      rw [List.dropWhile_append_of_pos, List.dropWhile_cons_of_neg (by simp)]
      intro r hr
      refine decide_eq_true fun heq => ?_
      exact irrefl_of ordered last.id (heq ▸ hfront r hr)
    refine ⟨rest.filter admits, ?_, hfilter rest ?_, fun r => ?_⟩
    · simp only [findMany, hdrop, List.filter_cons_of_pos hadmits, List.drop_succ_cons, List.drop_zero]
    · exact (List.sublist_cons_self _ _).trans (List.sublist_append_right _ _)
    · rw [List.mem_filter, List.mem_append, List.mem_cons]
      constructor
      · rintro ⟨hr, had⟩
        exact ⟨.inr (.inr hr), had, by simpa using hbehind r hr⟩
      · rintro ⟨hr | rfl | hr, had, horder⟩
        · exact absurd (trans_of ordered (hfront r hr) (horder _ rfl)) (irrefl_of ordered r.id)
        · exact absurd (horder _ rfl) (irrefl_of ordered r.id)
        · exact ⟨hr, had⟩

theorem Stored.times_page {n : ℕ} {last : ItemRow} (h : Stored ordered items) (read : PageRead)
    (hlast : (items.take n).getLast? = some last) (hmem : row ∈ items) (hid : row.id = item)
    (hfile : ∃ f ∈ row.files, f.id = file) :
    ordered last.id item ∧ times item file (everything read (items.take n)) = 0 ∨
      ¬ordered last.id item ∧ times item file (everything read (items.take n)) = 1 := by
  have hsorted := h.sorted
  rw [← List.take_append_drop n items] at hmem hsorted
  obtain ⟨htake, -, hcross⟩ := List.pairwise_append.1 hsorted
  rcases List.mem_append.1 hmem with hmem | hmem
  · right
    have hstored : Stored ordered (items.take n) :=
      ⟨htake, fun r hr => h.files r (List.take_subset n _ hr)⟩
    refine ⟨?_, hstored.times_eq_one hmem hid hfile⟩
    obtain ⟨front, hfront⟩ := List.getLast?_eq_some_iff.1 hlast
    rw [hfront] at hmem htake
    rcases List.mem_append.1 hmem with hmem | hmem
    · have hbefore := (List.pairwise_append.1 htake).2.2 row hmem last (List.mem_singleton_self last)
      exact fun hafter => irrefl_of ordered last.id (trans_of ordered (hid ▸ hafter) hbefore)
    · rw [← hid, List.mem_singleton.1 hmem]
      exact irrefl_of ordered last.id
  · left
    refine ⟨hid ▸ hcross last (List.mem_of_getLast? hlast) row hmem, times_eq_zero fun r hr heq => ?_⟩
    exact irrefl_of ordered row.id (by simpa [heq, hid] using hcross r hr row hmem)

section Runs

variable {rt : Runtime} {run : CleanupRun} {conditions : PolicyConditionNode} {cap : Option ℕ}
  {reads : List PageRead} {s scan : Scan} {reason : Option String}

theorem foldl_no_files (s : Scan) (h : ∀ row ∈ items, row.files = []) :
    items.foldl (fun s row => scanFiles rt run conditions cap read row s row.files) s = s := by
  induction items generalizing s with
  | nil => rfl
  | cons row items ih =>
    rw [List.foldl_cons, h row List.mem_cons_self, scanFiles]
    exact ih s fun r hr => h r (List.mem_cons_of_mem _ hr)

theorem onItems_no_files (evaluated : ℕ) (h : ∀ row ∈ items, row.files = []) :
    onItems cap read evaluated items = [] := by
  induction items generalizing evaluated with
  | nil => rfl
  | cons row items ih =>
    rw [onItems, h row List.mem_cons_self, filesWithin, ih _ fun r hr => h r (List.mem_cons_of_mem _ hr)]
    rfl

theorem pages_of_no_files (rt : Runtime) (run : CleanupRun) (conditions : PolicyConditionNode)
    {last : ItemRow} (reads : List PageRead) (hcap : capReached cap 0 = false)
    (hpage : findMany admits none read.table = items) (hlast : items.getLast? = some last)
    (hfull : pageSize ≤ items.length) (hempty : ∀ row ∈ items, row.files = [])
    (hstatus : read.status ≠ .cancelling) :
    scanPages rt run conditions cap admits (read :: reads) {} =
        scanPages rt run conditions cap admits reads { cursor := some last.id } ∧
      evaluations cap admits (read :: reads) none 0 = evaluations cap admits reads (some last.id) 0 := by
  have hshort : ¬items.length < pageSize := not_lt.2 hfull
  constructor
  · have hfold : items.foldl (fun s row => scanFiles rt run conditions cap read row s row.files)
        { cursor := some last.id } = { cursor := some last.id } := foldl_no_files _ hempty
    simp [scanPages, scanPage, hpage, hlast, hstatus, hfold, hshort, hcap]
  · simp [evaluations, hpage, hlast, hstatus, onItems_no_files _ hempty, hshort, hcap]

theorem scanFiles_uncapped (s : Scan) (files : List RawMediaFile) :
    (scanFiles rt run conditions none read row s files).truncated = s.truncated := by
  induction files generalizing s with
  | nil => rfl
  | cons file files ih =>
    rw [scanFiles]
    dsimp only
    rw [if_neg (by simp [capReached]), ih, scanFile]
    split_ifs <;> rfl

theorem completed_of_short (rt : Runtime) (run : CleanupRun) (conditions : PolicyConditionNode)
    (hshort : (findMany admits s.cursor read.table).length < pageSize) (hstatus : read.status ≠ .cancelling)
    (hwhole : s.truncated = false) :
    ∃ scan, scanPages rt run conditions none admits [read] s = .finished .completed none scan := by
  have hfold : ∀ (items : List ItemRow) (s : Scan), (items.foldl
      (fun s row => scanFiles rt run conditions none read row s row.files) s).truncated = s.truncated := by
    intro items
    induction items with
    | nil => exact fun s => rfl
    | cons row items ih =>
      intro s
      rw [List.foldl_cons, ih, scanFiles_uncapped]
  rw [scanPages, scanPage]
  dsimp only
  cases hlast : (findMany admits s.cursor read.table).getLast? with
  | none => simp [finish, hwhole]
  | some last => simp [finish, hwhole, hstatus, hshort, hfold]

/-- Where nothing stands behind the cursor, the page ends the run. -/
theorem completed_of_gone (rt : Runtime) (run : CleanupRun) (conditions : PolicyConditionNode)
    (hgone : findMany admits s.cursor read.table = []) (hwhole : s.truncated = false) :
    scanPages rt run conditions none admits [read] s = .finished .completed none s ∧
      evaluations none admits [read] s.cursor 0 = [] := by
  constructor
  · simp [scanPages, scanPage, hgone, finish, hwhole]
  · simp [evaluations, hgone]

theorem times_of_completed
    (hrun : scanPages rt run conditions cap admits reads s = .finished .completed reason scan)
    (hstored : ∀ read ∈ reads, Stored ordered read.table) (hkept : CursorsKept admits s.cursor reads)
    (hholds : ∀ read ∈ reads, Holds admits item file read.table) :
    s.truncated = false ∧
      ((∀ id ∈ s.cursor, ordered id item) →
        times item file (evaluations cap admits reads s.cursor s.evaluated) = 1) ∧
      ((∃ id ∈ s.cursor, ¬ordered id item) →
        times item file (evaluations cap admits reads s.cursor s.evaluated) = 0) := by
  have hfinish : ∀ s' : Scan, finish cap s' = .finished .completed reason scan → s'.truncated = false := by
    intro s' heq
    obtain ⟨status, reason', heq', -, hpartly⟩ := finish_eq cap s'
    rw [heq', Progress.finished.injEq] at heq
    by_contra htruncated
    rw [hpartly (by simpa using htruncated)] at heq
    exact absurd heq.1 (by decide)
  induction reads generalizing s with
  | nil => exact absurd hrun (by simp [scanPages])
  | cons read reads ih =>
    obtain ⟨hcursor, hlater⟩ := hkept
    obtain ⟨rows, hpage, hrows, hmem⟩ := (hstored read List.mem_cons_self).findMany_eq hcursor
    obtain ⟨row, hrow, hid, hadmits, hfile⟩ := hholds read List.mem_cons_self
    -- Behind the cursor the item is on the page or a later one, before it on none.
    have hbehind : (∀ id ∈ s.cursor, ordered id item) → row ∈ rows := fun hafter =>
      (hmem row).2 ⟨hrow, hadmits, fun id hid' => hid ▸ hafter id hid'⟩
    have hbefore : (∃ id ∈ s.cursor, ¬ordered id item) → ∀ r ∈ rows, r.id ≠ item := by
      rintro ⟨id, hid', hnot⟩ r hr rfl
      exact hnot (((hmem r).1 hr).2.2 id hid')
    rcases scanPages_cons rt run conditions cap admits read reads s with
        ⟨hnone, hpages, heval⟩ | ⟨last, hlast, ⟨hpages, -⟩ | ⟨s', here, hscanned, ⟨⟨hpages, hshort⟩ | hpages, heval⟩ | ⟨hpages, hfull, heval⟩⟩⟩
    · rw [hpages] at hrun
      have hempty : rows = [] := by
        have htake := hpage.symm.trans hnone
        rw [List.take_eq_nil_iff] at htake
        exact htake.resolve_left (by decide)
      refine ⟨hfinish s hrun, fun hafter => ?_, fun _ => by rw [heval]; rfl⟩
      exact absurd (hempty ▸ hbehind hafter) List.not_mem_nil
    · rw [hpages, Progress.finished.injEq] at hrun
      exact absurd hrun.1 (by decide)
    · obtain ⟨htruncated, rfl⟩ := hscanned.whole (hfinish s' (hpages ▸ hrun))
      have hwhole : rows.take pageSize = rows := by
        rw [hpage, List.length_take] at hshort
        exact List.take_of_length_le (by omega)
      rw [heval, hpage, hwhole]
      exact ⟨htruncated, fun hafter => hrows.times_eq_one (hbehind hafter) hid hfile,
        fun hnot => times_eq_zero (hbefore hnot)⟩
    · exact absurd (hfinish _ (hpages ▸ hrun)) (by simp)
    · have hnext : s'.cursor = some last.id := hscanned.cursor
      have hkept' : CursorsKept admits s'.cursor reads := by
        rw [hnext]
        simpa [hlast] using hlater.resolve_left (not_lt.2 hfull)
      obtain ⟨htruncated, hone, hzero⟩ := ih (hpages ▸ hrun)
        (fun r hr => hstored r (List.mem_cons_of_mem _ hr)) hkept'
        (fun r hr => hholds r (List.mem_cons_of_mem _ hr))
      obtain ⟨hfirst, rfl⟩ := hscanned.whole htruncated
      rw [hpage] at hlast
      rw [hnext] at hone hzero heval
      rw [heval, times_append, hpage]
      refine ⟨hfirst, fun hafter => ?_, fun hnot => ?_⟩
      · rcases hrows.times_page read hlast (hbehind hafter) hid hfile with
          ⟨hlater, hnone⟩ | ⟨hlater, honce⟩
        · rw [hnone, hone (by simpa using hlater)]
        · rw [honce, hzero ⟨_, rfl, hlater⟩]
      · have habsent := hbefore hnot
        obtain ⟨id, hid', hnot'⟩ := hnot
        have hlast' := ((hmem last).1 (List.mem_of_mem_take (List.mem_of_getLast? hlast))).2.2 id hid'
        rw [times_eq_zero fun r hr => habsent r (List.mem_of_mem_take hr),
          hzero ⟨_, rfl, fun hlater => hnot' (trans_of ordered hlast' hlater)⟩]

theorem scanPages_status {status : RunStatus}
    (hrun : scanPages rt run conditions cap admits reads s = .finished status reason scan) :
    status = .completed ∨ status = .partly ∨ status = .cancelled := by
  have hfinish : ∀ s' : Scan, finish cap s' = .finished status reason scan →
      status = .completed ∨ status = .partly ∨ status = .cancelled := by
    intro s' heq
    rw [finish] at heq
    split_ifs at heq <;> simp_all
  induction reads generalizing s with
  | nil => exact absurd hrun (by simp [scanPages])
  | cons read reads ih =>
    rcases scanPages_cons rt run conditions cap admits read reads s with
        ⟨-, hpages, -⟩ | ⟨last, -, ⟨hpages, -⟩ | ⟨s', here, -, ⟨⟨hpages, -⟩ | hpages, -⟩ | ⟨hpages, -, -⟩⟩⟩
    · exact hfinish s (hpages ▸ hrun)
    · rw [hpages, Progress.finished.injEq] at hrun
      exact .inr (.inr hrun.1.symm)
    · exact hfinish s' (hpages ▸ hrun)
    · exact hfinish _ (hpages ▸ hrun)
    · exact ih (hpages ▸ hrun)

end Runs

/-- What a run of a document evaluates, from its first page on. -/
def evaluationsOf (run : CleanupRun) (document : CleanupPolicyDocument) (limit : Option ℕ)
    (startedAt : Instant) (reads : List PageRead) : List Evaluation :=
  evaluations (evaluationCap run limit) (admitted document run.scopeItemIds startedAt) reads none 0

/-- As long as no page loses its cursor, a completed run evaluated each file that was there and
admitted throughout exactly once, and a run that ended without looking at one is a partial one. -/
theorem completed_looked_at_everything (ordered : String → String → Prop) [IsStrictOrder String ordered]
    (item file : String) (rt : Runtime) (run : CleanupRun) (document : CleanupPolicyDocument)
    (limit : Option ℕ) (startedAt : Instant) (reads : List PageRead) (status : RunStatus)
    (reason : Option String) (scan : Scan)
    (hrun : scanRun rt run (some document) limit startedAt reads = some (.finished status reason scan))
    (hstored : ∀ read ∈ reads, Stored ordered read.table)
    (hkept : CursorsKept (admitted document run.scopeItemIds startedAt) none reads)
    (hholds : ∀ read ∈ reads,
      Holds (admitted document run.scopeItemIds startedAt) item file read.table) :
    (status = .completed →
        times item file (evaluationsOf run document limit startedAt reads) = 1 ∧
          scan.evaluated = (evaluationsOf run document limit startedAt reads).length) ∧
      (status ≠ .cancelled → status ≠ .failed →
        times item file (evaluationsOf run document limit startedAt reads) = 0 → status = .partly) := by
  rw [scanRun] at hrun
  split_ifs at hrun
  cases hconditions : document.conditions with
  | none =>
    simp only [Option.map_some, hconditions, Option.some.injEq, Progress.finished.injEq] at hrun
    obtain ⟨rfl, -, -⟩ := hrun
    exact ⟨fun h => absurd h (by decide), fun _ h => absurd rfl h⟩
  | some conditions =>
    simp only [Option.map_some, hconditions, Option.some.injEq] at hrun
    have honce : status = .completed →
        times item file (evaluationsOf run document limit startedAt reads) = 1 := by
      rintro rfl
      exact (times_of_completed hrun hstored hkept hholds).2.1 (by simp)
    refine ⟨fun hstatus => ⟨honce hstatus, ?_⟩, fun hcancelled _ hzero => ?_⟩
    · have hevaluated := (scanPages_evaluations rt run conditions (evaluationCap run limit)
        (admitted document run.scopeItemIds startedAt) reads {}).1
      rw [hrun] at hevaluated
      simpa [Progress.scan, evaluationsOf] using hevaluated
    · rcases scanPages_status hrun with hcompleted | hpartly | hcancelled'
      · rw [honce hcompleted] at hzero
        exact absurd hzero one_ne_zero
      · exact hpartly
      · exact absurd hcancelled' hcancelled

/-! ### A library of one row more than a page -/

def byId (n : ℕ) : String := String.ofList (List.replicate n 'a')

/-- The last row alone has a file. -/
def rowAt (n : ℕ) : ItemRow where
  id := byId n
  libraryId := "movies"
  library := ⟨"movie", "/data/movies"⟩
  files := if n = 500 then [{ id := "last", path := "/data/movies/last.mkv", size := 1 }] else []

theorem rowAt_id (n : ℕ) : (rowAt n).id = byId n := rfl

def anySize : CleanupPolicyDocument where
  schemaVersion := 1
  conditions := some (.leaf ⟨"storage.fileSizeBytes", .gt, .number (.fin 0), false⟩)
  exclusions := none
  action := none

def movieRun : CleanupRun := ⟨"run", "version", .running, false, none⟩

theorem scopeItemIds_movieRun : movieRun.scopeItemIds = none := rfl

def readOf (table : List ItemRow) : PageRead := ⟨table, .running, fun _ _ => {}, 0⟩

@[simp] theorem readOf_table (table : List ItemRow) : (readOf table).table = table := rfl

def pageAndOne : List ItemRow := (List.range 501).map rowAt

/-- The last row of the first page was deleted. -/
def pageAndOneLater : List ItemRow := pageAndOne.filter fun row => row.id ≠ byId 499

theorem byId_lt {m n : ℕ} (h : m < n) : byId m < byId n := by
  rw [String.lt_iff, byId, byId, String.toList_ofList, String.toList_ofList]
  induction n generalizing m with
  | zero => omega
  | succ n ih =>
    cases m with
    | zero => exact List.nil_lt_cons _ _
    | succ m =>
      rw [List.replicate_succ, List.replicate_succ, List.cons_lt_cons_iff]
      exact .inr ⟨rfl, ih (by omega)⟩

theorem byId_ne {m n : ℕ} (h : m < n) : byId m ≠ byId n :=
  fun heq => absurd (heq ▸ byId_lt h) (String.lt_irrefl _)

instance isStrictOrder_string : IsStrictOrder String (· < ·) where
  irrefl := String.lt_irrefl
  trans _ _ _ := String.lt_trans

theorem anySize_admits (row : ItemRow) : admitted anySize none 0 row = true := rfl

theorem stored_rows (n : ℕ) : Stored (· < ·) ((List.range n).map rowAt) where
  sorted := List.pairwise_map.2 (List.pairwise_lt_range.imp fun h => byId_lt h)
  files := by
    intro row hrow
    obtain ⟨n, -, rfl⟩ := List.mem_map.1 hrow
    unfold rowAt
    split_ifs <;> simp

theorem holds_rows {table : List ItemRow} (h : rowAt 500 ∈ table) :
    Holds (admitted anySize none 0) (byId 500) "last" table :=
  ⟨rowAt 500, h, rfl, rfl, _, List.mem_cons_self, rfl⟩

theorem no_files {n : ℕ} (h : n ≤ 500) : ∀ row ∈ (List.range n).map rowAt, row.files = [] := by
  intro row hrow
  obtain ⟨m, hm, rfl⟩ := List.mem_map.1 hrow
  exact if_neg (by rw [List.mem_range] at hm; omega)

theorem first_page :
    findMany (admitted anySize none 0) none pageAndOne = (List.range 500).map rowAt := by
  have hall : pageAndOne.filter (admitted anySize none 0) = pageAndOne :=
    List.filter_eq_self.2 fun row _ => anySize_admits row
  show (pageAndOne.filter (admitted anySize none 0)).take 500 = _
  rw [hall, pageAndOne, ← List.map_take, List.take_range]
  rfl

theorem getLast?_first_page : ((List.range 500).map rowAt).getLast? = some (rowAt 499) := by
  rw [List.getLast?_map, List.getLast?_range]
  rfl

theorem rowAt_mem_pageAndOne : rowAt 500 ∈ pageAndOne :=
  List.mem_map_of_mem (List.mem_range.2 (by omega))

theorem stored_pageAndOne : Stored (· < ·) pageAndOne := stored_rows 501

theorem pageAndOne_eq : pageAndOne = (List.range 499).map rowAt ++ [rowAt 499, rowAt 500] := by
  rw [pageAndOne, List.range_succ, List.range_succ, List.map_append, List.map_append, List.append_assoc]
  rfl

/-- After the first page there is the rest of the rows to come. -/
theorem after_first_page (later : PageRead) :
    scanRun .ascii movieRun anySize none 0 [readOf pageAndOne, later] =
        some (scanPages .ascii movieRun (.leaf ⟨"storage.fileSizeBytes", .gt, .number (.fin 0), false⟩) none
          (admitted anySize none 0) [later] { cursor := some (byId 499) }) ∧
      evaluationsOf movieRun anySize none 0 [readOf pageAndOne, later] =
        evaluations none (admitted anySize none 0) [later] (some (byId 499)) 0 := by
  have hfull : pageSize ≤ ((List.range 500).map rowAt).length := by
    rw [List.length_map, List.length_range]
    rfl
  have hfirst : findMany (admitted anySize none 0) none (readOf pageAndOne).table =
      (List.range 500).map rowAt := by
    rw [readOf_table, first_page]
  obtain ⟨hpages, heval⟩ := pages_of_no_files .ascii movieRun
    (.leaf ⟨"storage.fileSizeBytes", .gt, .number (.fin 0), false⟩) [later]
    (show capReached none 0 = false from rfl) hfirst getLast?_first_page hfull (no_files le_rfl) (by decide)
  have hcap : evaluationCap movieRun none = none := rfl
  refine ⟨congrArg some hpages, ?_⟩
  rw [evaluationsOf, hcap, scopeItemIds_movieRun, heval]
  rfl

theorem findMany_behind {front : List ItemRow} {last : ItemRow} (row : ItemRow)
    (h : ∀ r ∈ front, r.id ≠ row.id) :
    findMany (admitted anySize none 0) (some row.id) (front ++ [row, last]) = [last] := by
  have hdrop : (front ++ [row, last]).dropWhile (fun r => decide (r.id ≠ row.id)) = [row, last] := by
    rw [List.dropWhile_append_of_pos fun r hr => decide_eq_true (h r hr), List.dropWhile_cons_of_neg (by simp)]
  simp only [findMany, hdrop, List.filter_cons, anySize_admits, if_true, List.filter_nil, List.drop_succ_cons,
    List.drop_zero]
  rfl

/-- The first row was deleted. -/
def firstGone : List ItemRow := ((List.range 499).map rowAt).drop 1 ++ [rowAt 499, rowAt 500]

theorem stored_firstGone : Stored (· < ·) firstGone := by
  refine stored_pageAndOne.sublist ?_
  rw [pageAndOne_eq]
  exact (List.drop_sublist 1 _).append_right _

theorem behind_first_page :
    findMany (admitted anySize none 0) (some (byId 499)) firstGone = [rowAt 500] := by
  refine findMany_behind (rowAt 499) fun row hrow => ?_
  obtain ⟨n, hn, rfl⟩ := List.mem_map.1 (List.mem_of_mem_drop hrow)
  exact byId_ne (List.mem_range.1 hn)

/-- The last row is on the second page, and the first one is gone when that is read. -/
theorem last_looked_at : times (byId 500) "last"
    (evaluationsOf movieRun anySize none 0 [readOf pageAndOne, readOf firstGone]) = 1 := by
  have hlast : rowAt 499 ∈ firstGone ∧ rowAt 500 ∈ firstGone :=
    ⟨List.mem_append_right _ List.mem_cons_self, List.mem_append_right _ (by simp)⟩
  have hsecond : (findMany (admitted anySize none 0) (some (byId 499)) (readOf firstGone).table).length <
      pageSize := by
    rw [readOf_table, behind_first_page]
    decide
  obtain ⟨scan, hscan⟩ := completed_of_short Runtime.ascii movieRun
    (.leaf ⟨"storage.fileSizeBytes", .gt, .number (.fin 0), false⟩) (s := { cursor := some (byId 499) }) hsecond
    (by decide) rfl
  have hcursor : (findMany (admitted anySize none 0) none (readOf pageAndOne).table).getLast?.map (·.id) =
      some (byId 499) := by
    rw [readOf_table, first_page, getLast?_first_page]
    rfl
  refine ((completed_looked_at_everything (· < ·) (byId 500) "last" Runtime.ascii movieRun anySize none 0
    [readOf pageAndOne, readOf firstGone] .completed none scan
    ((after_first_page _).1.trans (congrArg some hscan)) ?_ ⟨by simp, .inr ?_⟩ ?_).1 rfl).1
  · intro read hread
    rcases List.mem_pair.1 hread with rfl | rfl
    · rw [readOf_table]
      exact stored_pageAndOne
    · rw [readOf_table]
      exact stored_firstGone
  · rw [scopeItemIds_movieRun, hcursor]
    refine ⟨?_, .inl hsecond⟩
    intro id hid
    cases Option.mem_some.1 hid
    rw [readOf_table]
    exact ⟨rowAt 499, hlast.1, rowAt_id 499, anySize_admits _⟩
  · intro read hread
    rcases List.mem_pair.1 hread with rfl | rfl
    · rw [readOf_table]
      exact holds_rows rowAt_mem_pageAndOne
    · rw [readOf_table]
      exact holds_rows hlast.2

theorem second_page :
    findMany (admitted anySize none 0) (some (byId 499)) pageAndOneLater = [] := by
  have hgone : pageAndOneLater.dropWhile (fun row => decide (row.id ≠ byId 499)) = [] := by
    rw [List.dropWhile_eq_nil_iff]
    exact fun row hrow => (List.mem_filter.1 hrow).2
  simp only [findMany, hgone, List.filter_nil, List.drop_nil, List.take_nil]

/-- The second page finds nothing behind a row that is gone, and the run counts as completed. -/
theorem lastFile_missed :
    (∀ read ∈ [readOf pageAndOne, readOf pageAndOneLater],
      Stored (· < ·) read.table ∧ Holds (admitted anySize none 0) (byId 500) "last" read.table) ∧
    (∃ scan, scanRun Runtime.ascii movieRun anySize none 0 [readOf pageAndOne, readOf pageAndOneLater] =
      some (.finished .completed none scan)) ∧
    times (byId 500) "last"
      (evaluationsOf movieRun anySize none 0 [readOf pageAndOne, readOf pageAndOneLater]) = 0 := by
  have hmem : rowAt 500 ∈ pageAndOneLater :=
    List.mem_filter.2 ⟨rowAt_mem_pageAndOne, decide_eq_true (byId_ne (show 499 < 500 by omega)).symm⟩
  have hsecond :
      findMany (admitted anySize none 0) (some (byId 499)) (readOf pageAndOneLater).table = [] := by
    rw [readOf_table, second_page]
  obtain ⟨hpages, heval⟩ := after_first_page (readOf pageAndOneLater)
  have hgone := completed_of_gone Runtime.ascii movieRun
    (.leaf ⟨"storage.fileSizeBytes", .gt, .number (.fin 0), false⟩) (s := { cursor := some (byId 499) }) hsecond rfl
  refine ⟨?_, ⟨{ cursor := some (byId 499) }, ?_⟩, ?_⟩
  · intro read hread
    rcases List.mem_pair.1 hread with rfl | rfl
    · rw [readOf_table]
      exact ⟨stored_pageAndOne, holds_rows rowAt_mem_pageAndOne⟩
    · rw [readOf_table]
      exact ⟨stored_pageAndOne.sublist List.filter_sublist, holds_rows hmem⟩
  · exact hpages.trans (congrArg some hgone.1)
  · rw [heval, hgone.2]
    rfl

end UltraTorrent.Cleanup.CompletedScans
