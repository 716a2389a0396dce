import Mathlib.Data.List.Basic
import Mathlib.Tactic.SplitIfs
import UltraTorrent.Library.Interleaving

/-! The synchronization of an installed subtitle: the text is kept in a sibling file, and the
synced one takes its place. A file is written as a truncation and then piece by piece, and any
call may fail. -/
namespace UltraTorrent.Subtitles.SubtitleSync

open Library

abbrev Text := List Char

/-- The texts of the files; `none` where there is no file. -/
abbrev Disk := String → Option Text

/-! ### The sibling -/

def basename (path : List Char) : List Char := (path.reverse.takeWhile (· ≠ '/')).reverse

/-- From the last dot of the name on, unless the name starts with it. -/
def extname (path : List Char) : List Char :=
  let name := basename path
  let rest := (name.reverse.takeWhile (· ≠ '.')).reverse
  if name.length ≤ rest.length + 1 ∨ name = ['.', '.'] then [] else '.' :: rest

/-- Inserts `.orig` before the extension. -/
def originalBackupPath (activePath : String) : String :=
  let ext := extname activePath.toList
  .ofList (activePath.toList.take (activePath.toList.length - ext.length) ++ ".orig".toList ++ ext)

theorem length_basename (path : List Char) : (basename path).length ≤ path.length := by
  have hle := (List.takeWhile_sublist (fun ch => (ch ≠ '/' : Bool)) (l := path.reverse)).length_le
  rw [List.length_reverse] at hle
  rwa [basename, List.length_reverse]

theorem length_extname (path : List Char) : (extname path).length ≤ path.length := by
  have hbase := length_basename path
  unfold extname
  dsimp only
  split_ifs with h
  · exact Nat.zero_le _
  · rw [List.length_cons]
    omega

/-- The sibling is never the sidecar itself. -/
theorem originalBackupPath_ne (path : String) : originalBackupPath path ≠ path := by
  intro h
  have hlength := congrArg (fun s => s.toList.length) h
  have hext := length_extname path.toList
  simp only [originalBackupPath, String.toList_ofList, List.length_append, List.length_take] at hlength
  have horig : (".orig".toList).length = 5 := rfl
  omega

/-! ### Calls -/

structure SyncRequest where
  manual : Bool
  deriving DecidableEq

/-- What a provider makes of a text. -/
inductive Synced where
  | implausibleResult
  | text (content : Text)
  deriving DecidableEq

inductive Call where
  | synchronize (request : SyncRequest)
  | reading
  | syncing (content : Text)
  | checking (content result : Text)
  | openingBackup (content result : Text)
  | writingBackup (content result : Text) (written : ℕ)
  | opening (result : Text)
  | installing (result : Text) (written : ℕ)
  | recording
  | synced
  | notSynced (reason : String)
  deriving DecidableEq

/-- What an action is answered with from outside. -/
structure Answer where
  fails : Bool := false
  /-- FFsubsync is installed. -/
  available : Bool := true
  result : Synced := .implausibleResult
  /-- How much of what is left is written at once. -/
  count : ℕ := 0
  deriving DecidableEq

/-- The next piece, where the writer stands in the file. -/
def splice (file : Text) (offset : ℕ) (piece : Text) : Text :=
  file.take offset ++ List.replicate (offset - file.length) (Char.ofNat 0) ++ piece ++
    file.drop (offset + piece.length)

def write (disk : Disk) (path : String) (text : Text) : Disk := Function.update disk path (some text)

def writePiece (disk : Disk) (path : String) (content : Text) (written count : ℕ) : Disk :=
  write disk path (splice ((disk path).getD []) written ((content.drop written).take count))

/-- One action of a call on the subtitle at `path`; `none` when it has returned. A writer that
has nothing left to write closes its file. -/
def act (path : String) (disk : Disk) (call : Call) (answer : Answer) : Option (Disk × Call) :=
  match call with
  | .synchronize request =>
    some (disk, if answer.fails then .notSynced "threw"
      else if !request.manual && !answer.available then .notSynced "ffsubsync_unavailable"
      else .reading)
  | .reading =>
    some (disk, match disk path with
      | none => .notSynced "threw"
      | some content => if answer.fails then .notSynced "threw" else .syncing content)
  | .syncing content =>
    some (disk, if answer.fails then .notSynced "sync_failed"
      else match answer.result with
      | .implausibleResult => .notSynced "implausible_result"
      | .text result => .checking content result)
  | .checking content result =>
    -- a file that cannot be accessed is taken for one that is not there
    some (disk, if (disk (originalBackupPath path)).isSome && !answer.fails then .opening result
      else .openingBackup content result)
  | .openingBackup content result =>
    if answer.fails then some (disk, .notSynced "sync_failed")
    else some (write disk (originalBackupPath path) [], .writingBackup content result 0)
  | .writingBackup content result written =>
    if answer.fails then some (disk, .notSynced "sync_failed")
    else if content.length ≤ written then some (disk, .opening result)
    else some (writePiece disk (originalBackupPath path) content written answer.count,
      .writingBackup content result (written + answer.count))
  | .opening result =>
    if answer.fails then some (disk, .notSynced "sync_failed")
    else some (write disk path [], .installing result 0)
  | .installing result written =>
    if answer.fails then some (disk, .notSynced "sync_failed")
    else if result.length ≤ written then some (disk, .recording)
    else some (writePiece disk path result written answer.count, .installing result (written + answer.count))
  | .recording => some (disk, if answer.fails then .notSynced "sync_failed" else .synced)
  | .synced | .notSynced _ => none

def isEntry : Call → Bool
  | .synchronize _ => true
  | _ => false

end UltraTorrent.Subtitles.SubtitleSync

/-! A sync can be reverted, as long as the sibling that a call finds is a whole copy of the
text and not what is left of one. -/
namespace UltraTorrent.Subtitles.RevertibleSync

open Library Library.Interleaving SubtitleSync

variable {path : String} {original : Text} {disk disk' : Disk} {call call' : Call} {answer : Answer}

/-- The text is where it was, or in the sibling. -/
def Revertible (path : String) (original : Text) (disk : Disk) : Prop :=
  disk path = some original ∨ disk (originalBackupPath path) = some original

instance : Decidable (Revertible path original disk) := inferInstanceAs (Decidable (_ ∨ _))

/-- A call that looks for the sibling finds none, or one that holds the text; and one that found
none still finds none when it begins to write it. -/
def WholeCopies (path : String) (original : Text) (disk : Disk) : Call → Prop
  | .checking _ _ => ∀ copy ∈ disk (originalBackupPath path), copy = original
  | .openingBackup _ _ => disk (originalBackupPath path) = none
  | _ => True

instance (call : Call) : Decidable (WholeCopies path original disk call) := by
  cases call <;> unfold WholeCopies <;> infer_instance

/-- What a call relies on. -/
def Backed (path : String) (original : Text) (disk : Disk) : Call → Prop
  | .syncing content | .checking content _ | .openingBackup content _ =>
    content = original ∨ disk (originalBackupPath path) = some original
  | .writingBackup content _ written =>
    content = original ∧ disk (originalBackupPath path) = some (content.take written)
  | .opening _ | .installing _ _ => disk (originalBackupPath path) = some original
  | _ => True

def writesBackup : Call → Bool
  | .writingBackup _ _ _ => true
  | _ => false

/-- What one action does to the disk. -/
inductive Effect (path : String) (disk : Disk) (call : Call) : Disk → Prop
  | none : Effect path disk call disk
  | backupOpened {content result : Text} : call = .openingBackup content result →
      Effect path disk call (write disk (originalBackupPath path) [])
  | backupWritten {content result : Text} {written count : ℕ} :
      call = .writingBackup content result written → written < content.length →
      Effect path disk call (writePiece disk (originalBackupPath path) content written count)
  | sidecarWritten {text : Text} : (∃ result, call = .opening result) ∨
      (∃ result written, call = .installing result written) → Effect path disk call (write disk path text)

theorem splice_take (content : Text) (written count : ℕ) (h : written < content.length) :
    splice (content.take written) written ((content.drop written).take count) =
      content.take (written + count) := by
  have hlength : (content.take written).length = written := by
    rw [List.length_take]
    omega
  have hrest : (content.take written).drop (written + ((content.drop written).take count).length) = [] :=
    List.drop_eq_nil_of_le (by omega)
  rw [splice, hrest, hlength, Nat.sub_self, List.replicate_zero, List.append_nil, List.append_nil,
    List.take_of_length_le (Nat.le_of_eq hlength), ← List.take_add]

theorem act_effect {next : Disk × Call} (h : act path disk call answer = some next) :
    Effect path disk call next.1 := by
  cases call with
  | synchronize | reading | syncing | checking | recording =>
    rw [← Option.some.inj h]
    exact .none
  | synced | notSynced => cases h
  | openingBackup content result =>
    simp only [act] at h
    split_ifs at h <;> rw [← Option.some.inj h] <;> dsimp only
    · exact .none
    · exact .backupOpened rfl
  | writingBackup content result written =>
    simp only [act] at h
    split_ifs at h with hfails hdone <;> rw [← Option.some.inj h] <;> dsimp only
    · exact .none
    · exact .none
    · exact .backupWritten rfl (Nat.lt_of_not_le hdone)
  | opening result =>
    simp only [act] at h
    split_ifs at h <;> rw [← Option.some.inj h] <;> dsimp only
    · exact .none
    · exact .sidecarWritten (.inl ⟨result, rfl⟩)
  | installing result written =>
    simp only [act] at h
    split_ifs at h <;> rw [← Option.some.inj h] <;> dsimp only
    · exact .none
    · exact .none
    · exact .sidecarWritten (.inr ⟨result, written, rfl⟩)

/-! ### What a write leaves -/

theorem write_self {text : Text} : write disk path text path = some text := Function.update_self _ _ _

theorem write_sidecar_backup {text : Text} :
    write disk path text (originalBackupPath path) = disk (originalBackupPath path) :=
  Function.update_of_ne (originalBackupPath_ne path) _ _

theorem write_backup_sidecar {text : Text} :
    write disk (originalBackupPath path) text path = disk path :=
  Function.update_of_ne (originalBackupPath_ne path).symm _ _

theorem writePiece_backup {content : Text} {written count : ℕ}
    (hcopy : disk (originalBackupPath path) = some (content.take written)) (h : written < content.length) :
    writePiece disk (originalBackupPath path) content written count (originalBackupPath path) =
      some (content.take (written + count)) := by
  rw [writePiece, write_self, hcopy, Option.getD_some, splice_take content written count h]

/-- A copy that is not finished is not the text. -/
theorem take_ne {content : Text} {written : ℕ} (h : written < content.length) :
    content.take written ≠ content := by
  intro heq
  have hlength := congrArg List.length heq
  rw [List.length_take] at hlength
  omega

theorem act_writesBackup {next : Disk × Call} (h : act path disk call answer = some next)
    (hnext : writesBackup next.2 = true) :
    writesBackup call = true ∨ ∃ content result, call = .openingBackup content result := by
  cases call with
  | openingBackup content result => exact .inr ⟨content, result, rfl⟩
  | writingBackup => exact .inl rfl
  | synced | notSynced => cases h
  | synchronize | recording | checking =>
    rw [← Option.some.inj h] at hnext
    dsimp only at hnext
    split_ifs at hnext <;> cases hnext
  | reading | syncing =>
    rw [← Option.some.inj h] at hnext
    dsimp only at hnext
    split at hnext
    · cases hnext
    · split at hnext <;> cases hnext
  | opening | installing =>
    simp only [act] at h
    split_ifs at h <;> rw [← Option.some.inj h] at hnext <;> cases hnext

theorem Backed.own {next : Disk × Call} (h : act path disk call answer = some next)
    (hrevertible : Revertible path original disk) (hbacked : Backed path original disk call)
    (hwhole : WholeCopies path original disk call) :
    Revertible path original next.1 ∧ Backed path original next.1 next.2 := by
  cases call with
  | synced | notSynced => cases h
  | synchronize | recording =>
    rw [← Option.some.inj h]
    refine ⟨hrevertible, ?_⟩
    dsimp only
    split_ifs <;> trivial
  | reading =>
    rw [← Option.some.inj h]
    refine ⟨hrevertible, ?_⟩
    dsimp only
    split
    · trivial
    · rename_i content hcontent
      split_ifs
      · trivial
      · exact hrevertible.imp_left fun horiginal => Option.some.inj (hcontent.symm.trans horiginal)
  | syncing content =>
    rw [← Option.some.inj h]
    refine ⟨hrevertible, ?_⟩
    dsimp only
    split_ifs
    · trivial
    · split
      · trivial
      · exact hbacked
  | checking content result =>
    rw [← Option.some.inj h]
    refine ⟨hrevertible, ?_⟩
    dsimp only
    split_ifs with hfound
    · obtain ⟨copy, hcopy⟩ := Option.isSome_iff_exists.1 (Bool.and_eq_true_iff.1 hfound).1
      have heq := hwhole copy hcopy
      subst heq
      exact hcopy
    · exact hbacked
  | openingBackup content result =>
    simp only [act] at h
    have hnone : disk (originalBackupPath path) = none := hwhole
    split_ifs at h <;> rw [← Option.some.inj h] <;> dsimp only
    · exact ⟨hrevertible, trivial⟩
    · have hopened : write disk (originalBackupPath path) [] (originalBackupPath path) = some [] := write_self
      refine ⟨.inl ?_, hbacked.resolve_right (by simp [hnone]), ?_⟩
      · rw [write_backup_sidecar]
        exact hrevertible.resolve_right (by simp [hnone])
      · rw [hopened, List.take_zero]
  | writingBackup content result written =>
    obtain ⟨rfl, hcopy⟩ := hbacked
    simp only [act] at h
    split_ifs at h with hfails hdone <;> rw [← Option.some.inj h] <;> dsimp only
    · exact ⟨hrevertible, trivial⟩
    · rw [List.take_of_length_le hdone] at hcopy
      exact ⟨hrevertible, hcopy⟩
    · have hwritten := Nat.lt_of_not_le hdone
      refine ⟨.inl ?_, rfl, writePiece_backup hcopy hwritten⟩
      rw [writePiece, write_backup_sidecar]
      exact hrevertible.resolve_right fun hwhole =>
        take_ne hwritten (Option.some.inj (hcopy.symm.trans hwhole))
  | opening result =>
    simp only [act] at h
    split_ifs at h <;> rw [← Option.some.inj h] <;> dsimp only
    · exact ⟨hrevertible, trivial⟩
    · exact ⟨.inr (write_sidecar_backup.trans hbacked), write_sidecar_backup.trans hbacked⟩
  | installing result written =>
    simp only [act] at h
    split_ifs at h <;> rw [← Option.some.inj h] <;> dsimp only
    · exact ⟨hrevertible, trivial⟩
    · exact ⟨hrevertible, trivial⟩
    · exact ⟨.inr (write_sidecar_backup.trans hbacked), write_sidecar_backup.trans hbacked⟩

theorem Backed.other {other : Call} (heffect : Effect path disk call disk')
    (hbacked : Backed path original disk call) (hother : Backed path original disk other)
    (halone : ¬ (writesBackup call = true ∧ writesBackup other = true))
    (hwhole : WholeCopies path original disk call) : Backed path original disk' other := by
  -- while the sibling is not the text, only a call that has read the text relies on something
  have hlost : disk (originalBackupPath path) ≠ some original → writesBackup other = false →
      Backed path original disk' other := by
    intro hne hwrites
    cases other with
    | syncing | checking | openingBackup => exact .inl (hother.resolve_right hne)
    | writingBackup => cases hwrites
    | opening | installing => exact absurd hother hne
    | synchronize | reading | recording | synced | notSynced => trivial
  cases heffect with
  | none => exact hother
  | backupOpened hcall =>
    subst hcall
    have hnone : disk (originalBackupPath path) = none := hwhole
    refine hlost (by simp [hnone]) ?_
    cases other with
    | writingBackup =>
      have hcopy := hother.2
      rw [hnone] at hcopy
      cases hcopy
    | _ => rfl
  | backupWritten hcall hwritten =>
    subst hcall
    obtain ⟨rfl, hcopy⟩ := hbacked
    refine hlost (fun hwhole => take_ne hwritten (Option.some.inj (hcopy.symm.trans hwhole))) ?_
    exact Bool.eq_false_iff.2 fun hwrites => halone ⟨rfl, hwrites⟩
  | sidecarWritten =>
    cases other with
    | syncing | checking | openingBackup => exact hother.imp_right write_sidecar_backup.trans
    | writingBackup => exact ⟨hother.1, write_sidecar_backup.trans hother.2⟩
    | opening | installing => exact write_sidecar_backup.trans hother
    | synchronize | reading | recording | synced | notSynced => trivial

variable {ι : Type*} [DecidableEq ι]

/-- In a run of any number of calls, in any order and overlap and with any writes failing, in
which every sibling found is a whole copy, the text is never lost. -/
theorem wholeCopies_revertible {start c : Config ι Disk Call} (hstart : start.store path = some original)
    (hentry : ∀ i, isEntry (start.call i) = true)
    (h : Run (act path) (alone (WholeCopies path original)) start c) :
    Revertible path original c.store := by
  suffices hinv : Inv (Revertible path original) (Backed path original)
      (fun k l => ¬ (writesBackup k = true ∧ writesBackup l = true)) c from hinv.store
  refine h.inv (fun k l hkl hlk => hkl hlk.symm) ?_ ?_ ?_
  · refine ⟨.inl hstart, fun i => ?_, fun i j _ hij => ?_⟩
    · have hi := hentry i
      cases hcall : start.call i <;> rw [hcall] at hi <;> trivial
    · have hi := hentry i
      have hwrites := hij.1
      cases hcall : start.call i <;> rw [hcall] at hi hwrites <;>
        simp [isEntry, writesBackup] at hi hwrites
  · intro disk k answer disk' k' hrevertible hbacked hwhole hact
    exact Backed.own hact hrevertible hbacked hwhole
  · intro disk k answer disk' k' l _ hbacked hother halone hwhole hact
    refine ⟨Backed.other (act_effect hact) hbacked hother halone hwhole, fun hboth => ?_⟩
    rcases act_writesBackup hact hboth.1 with hwrites | ⟨content, result, rfl⟩
    · exact halone ⟨hwrites, hboth.2⟩
    · have hnone : disk (originalBackupPath path) = none := hwhole
      cases l with
      | writingBackup =>
        have hcopy := hother.2
        rw [hnone] at hcopy
        cases hcopy
      | _ => cases hboth.2

def sidecar : String := "/tv/Show.en.srt"

/-- One subtitle of three letters, and requests to shift it. -/
def installed : Config ℕ Disk Call where
  store := fun path => if path = sidecar then some "abc".toList else none
  call := fun _ => .synchronize { manual := true }

def shifted : Answer := { result := .text "xyz".toList, count := 3 }

/-- The copy fails half-way; the next request takes what is left of it for the original. -/
theorem original_lost : ∃ c, Run (act sidecar) (fun _ _ => True) installed c ∧
    ¬ Revertible sidecar "abc".toList c.store := by
  obtain ⟨c, hrun, hlost⟩ := run_of_exec_any (act sidecar) (fun _ _ => True) installed
    ([(0, shifted), (0, shifted), (0, shifted), (0, shifted), (0, shifted),
      (0, { shifted with count := 1 }), (0, { fails := true }),
      (1, shifted), (1, shifted), (1, shifted), (1, shifted), (1, shifted)])
    (fun c => !decide (Revertible sidecar "abc".toList c.store)) (by decide +kernel)
  exact ⟨c, hrun, by simpa using hlost⟩

/-- Two syncs one after the other keep the first text. -/
theorem original_kept : ∃ c, Run (act sidecar) (alone (WholeCopies sidecar "abc".toList)) installed c ∧
    c.call 1 = .synced ∧ Revertible sidecar "abc".toList c.store := by
  obtain ⟨c, hrun, hdone⟩ := run_of_exec_any (act sidecar) (alone (WholeCopies sidecar "abc".toList)) installed
    ((List.replicate 11 (0, shifted)) ++ (List.replicate 8 (1, shifted)))
    (fun c => c.call 1 = .synced) (by decide +kernel)
  exact ⟨c, hrun, of_decide_eq_true hdone, wholeCopies_revertible rfl (fun _ => rfl) hrun⟩

end UltraTorrent.Subtitles.RevertibleSync
