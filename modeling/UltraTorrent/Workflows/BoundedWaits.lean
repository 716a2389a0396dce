import UltraTorrent.Workflows.DispatchRounds
import UltraTorrent.Workflows.ResolvedGraph

/-! How long an armed wait may last. The executor reads a node's own timeout; validation reads the
one among its settings, or is content with an edge on the port `timeout`, and never looks at what
the executor reads. -/
namespace UltraTorrent.Workflows.BoundedWaits

open Library.EcmaScript GraphTypes NodeRegistry WorkflowExecution WorkflowValidator ResolvedGraph

/-- The execution has an expiry, no later than the longest wait after it was armed. -/
def Expires (s : Execution) (armed : Instant) : Prop :=
  ∃ expiresAt, s.expiresAt = some expiresAt ∧
    (expiresAt : ℚ) ≤ armed + maxWaitTimeoutSeconds * 1000

/-- The node itself has a timeout, no longer, in whole milliseconds, than the longest wait. -/
def TimesOut (node : StoredNode) : Prop :=
  0 < node.timeoutSeconds ∧ (⌊node.timeoutSeconds * 1000⌋ : ℚ) ≤ maxWaitTimeoutSeconds * 1000

variable {rt : Runtime} {registry : NodeDefinitionLookup} {options : ValidateOptions}
  {graph : StoredGraph} {node : StoredNode} {p : Pinned} {s s' : Execution} {l : Loop} {k : Call}
  {now : Instant}

/-! ### Arming -/

theorem expiresAt_park (hcategory : categoryOf registry node = some .wait ∨
      categoryOf registry node = some .approval) :
    (s.park p (resolve rt registry node) now).expiresAt =
      if 0 < node.timeoutSeconds then some (newDate (now + node.timeoutSeconds * 1000)) else none := by
  unfold Execution.park
  rw [category_resolve]
  rcases hcategory with h | h <;> rw [h] <;> rfl

/-- After the epoch a date is late by the whole milliseconds of the timeout. -/
theorem newDate_add (hnow : 0 ≤ now) {timeout : ℚ} (htimeout : 0 < timeout) :
    newDate (now + timeout) = now + ⌊timeout⌋ := by
  have hnow : (0 : ℚ) ≤ now := by exact_mod_cast hnow
  rw [newDate, if_pos (by linarith), Int.floor_intCast_add]

/-- A wait or an approval expires in time just when its node has a timeout of its own that is not
too long. -/
theorem armed_expires_iff (rt : Runtime) (registry : NodeDefinitionLookup) (node : StoredNode)
    (hcategory : categoryOf registry node = some .wait ∨ categoryOf registry node = some .approval)
    (p : Pinned) (l : Loop) (s s' : Execution) (k : Call) (now : Instant) (hnow : 0 ≤ now)
    (harmed : act rt p s (.loop l (.park (resolve rt registry node))) (.clock now) = some (s', k)) :
    Expires s' now ↔ TimesOut node := by
  cases harmed
  unfold Expires TimesOut
  rw [expiresAt_park hcategory]
  split_ifs with htimeout
  · have hdate := newDate_add hnow (mul_pos htimeout (by norm_num : (0 : ℚ) < 1000))
    simp only [Option.some.injEq, exists_eq_left', htimeout, true_and, hdate, Int.cast_add,
      add_le_add_iff_left]
  · simp [htimeout]

theorem expired_none (h : s.expiresAt = none) (now : Instant) : begin s (.expired now) = none := by
  simp [begin, h]

/-- A wait with a timeout among its settings, and one of its own. -/
def waitNode (timeoutSeconds : ℚ) : StoredNode where
  id := "wait"
  type := "control.wait"
  config := [("eventType", .string "media.matched"), ("timeoutSeconds", .number (.fin 3600))]
  timeoutSeconds := timeoutSeconds

def waitGraph (timeoutSeconds : ℚ) : StoredGraph where
  schemaVersion := 1
  nodes :=
    [{ id := "start", type := "trigger.manual" }, waitNode timeoutSeconds,
     { id := "late", type := "control.end" }, { id := "end", type := "control.end" }]
  edges :=
    [{ id := "e1", sourceNodeId := "start", sourcePort := some "out", targetNodeId := "wait" },
     { id := "e2", sourceNodeId := "wait", sourcePort := some "timeout", targetNodeId := "late" },
     { id := "e3", sourceNodeId := "wait", sourcePort := some "completed", targetNodeId := "end" }]

def waitRun (timeoutSeconds : ℚ) : Pinned where
  graph := resolveGraph .ascii nodeRegistry (waitGraph timeoutSeconds)
  inputContext := []
  depth := 0

def running : Execution := { DispatchRounds.queued with status := .running }

def firstWave : Loop where
  grant := none
  states _ := none
  vars := .object []
  iter := 0

/-- With an hour of its own the wait lasts no longer. -/
theorem hour_expires :
    Expires (running.park (waitRun 3600) (resolve .ascii nodeRegistry (waitNode 3600)) 0) 0 :=
  (armed_expires_iff .ascii nodeRegistry (waitNode 3600) (.inl rfl) (waitRun 3600) firstWave running _ _ 0
    le_rfl rfl).2 ⟨by decide +kernel, by decide +kernel⟩

/-- With an hour among its settings, and its port `timeout` connected, it is valid and lasts for ever. -/
theorem setting_waits : isValid .ascii nodeRegistry {} (waitGraph 0) = true ∧
    ∃ s' k, act .ascii (waitRun 0) running
        (.loop firstWave (.park (resolve .ascii nodeRegistry (waitNode 0)))) (.clock 0) = some (s', k) ∧
      s'.status = .waitingForEvent ∧ ¬ Expires s' 0 ∧ ∀ now, begin s' (.expired now) = none := by
  refine ⟨by decide +kernel, _, _, rfl, by rfl, ?_, fun now => expired_none (by rfl) now⟩
  rintro ⟨expiresAt, h, -⟩
  cases h

end UltraTorrent.Workflows.BoundedWaits
