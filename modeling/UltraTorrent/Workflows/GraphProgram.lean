import Mathlib.Data.List.Find
import UltraTorrent.Library.Dataflow
import UltraTorrent.Workflows.ResolvedGraph

/-! What a workflow graph is for: a program of nodes over shared variables. A node fires ports, by
which others become ready, and its ports, the variable it sets and the inputs it renders depend on
the paths it resolves and on nothing else. -/
namespace UltraTorrent.Workflows.GraphProgram

open Library.EcmaScript Library.Dataflow ConditionEval Template GraphTypes NodeRegistry
  WorkflowValidator ResolvedGraph

/-! ### Paths -/

/-- The paths a text is filled in from. -/
def placeholders : ℕ → List Char → List (List String)
  | 0, _ => []
  | _ + 1, [] => []
  | budget + 1, c :: text =>
    match placeholder (c :: text) with
    | some (path, rest) => splitPath path :: placeholders budget rest
    | none => placeholders budget text

def valuePaths : Value → List (List String)
  | .string text => placeholders text.length text.toList
  | _ => []

def leadsTo (path : List String) (key : String) : Bool :=
  path = ["vars"] || ["vars", key].isPrefixOf path

section Node

variable (rt : Runtime) (registry : NodeDefinitionLookup) (node : StoredNode)

/-- The paths a node resolves. -/
def paths : List (List String) :=
  let config := readConfig rt node.config
  match categoryOf registry node with
  | some .condition => (readCondition config).toList.map (·.field)
  | some .branch => config.branches.map (·.condition.field)
  | some .variable => valuePaths (config.value.getD .undefined)
  | some .action => node.config.flatMap fun entry => valuePaths entry.2
  | _ => []

def readsKey (key : String) : Bool := (paths rt registry node).any fun path => leadsTo path key

def setsKey : Option String :=
  let key := (readConfig rt node.config).key
  if categoryOf registry node = some .variable ∧ key ≠ "" then some key else none

def portsOf (context : Value) : List String :=
  if categoryOf registry node = some .action then ["out"]
  else firedPorts rt (resolve rt registry node) context

def renderedValue (context : Value) : Value :=
  renderValue rt ((readConfig rt node.config).value.getD .undefined) context

end Node

/-! ### What a path resolves to -/

/-- Objects with the same keys and values have one text and one number. -/
structure Extensional (rt : Runtime) : Prop where
  string : ∀ s t : List (String × Value), (∀ key, s.lookup key = t.lookup key) →
    rt.stringOfObject (.object s) = rt.stringOfObject (.object t)
  number : ∀ s t : List (String × Value), (∀ key, s.lookup key = t.lookup key) →
    rt.numberOfObject (.object s) = rt.numberOfObject (.object t)

/-- Values that cannot be told apart: the same, or objects with the same keys and values. -/
inductive Same : Value → Value → Prop
  | refl (v : Value) : Same v v
  | object {s t : List (String × Value)} (h : ∀ key, s.lookup key = t.lookup key) :
      Same (.object s) (.object t)

/-- Two contexts resolve paths to the same. -/
def Agree (c c' : Value) (ps : List (List String)) : Prop :=
  ∀ path ∈ ps, Same (resolvePath c path) (resolvePath c' path)

section Same

variable {rt : Runtime} {registry : NodeDefinitionLookup} {node : StoredNode} {v v' c c' : Value}

theorem Same.isNullish (h : Same v v') : v.isNullish = v'.isNullish := by
  cases h <;> rfl

theorem Same.string (hrt : Extensional rt) (h : Same v v') : rt.string v = rt.string v' := by
  cases h with
  | refl => rfl
  | object h => exact hrt.string _ _ h

theorem Same.number (hrt : Extensional rt) (h : Same v v') : rt.number v = rt.number v' := by
  cases h with
  | refl => rfl
  | object h => exact hrt.number _ _ h

theorem Same.strictEq (h : Same v v') (value : Value) : v.strictEq value = v'.strictEq value := by
  cases h with
  | refl => rfl
  | object => cases value <;> rfl

theorem Same.applyOperator (hrt : Extensional rt) (h : Same v v') (op : ConditionOperator)
    (value : Value) : applyOperator rt op v value = applyOperator rt op v' value := by
  cases op <;>
    simp only [ConditionEval.applyOperator, h.strictEq, h.number hrt, h.string hrt]

theorem renderFrom_congr (hrt : Extensional rt) {budget : ℕ} {text : List Char}
    (h : Agree c c' (placeholders budget text)) :
    renderFrom rt c budget text = renderFrom rt c' budget text := by
  induction budget generalizing text with
  | zero => rfl
  | succ budget ih =>
    cases text with
    | nil => rfl
    | cons char text =>
      rw [renderFrom, renderFrom]
      rw [placeholders] at h
      cases hplace : placeholder (char :: text) with
      | none =>
        rw [hplace] at h
        exact congrArg (char :: ·) (ih h)
      | some found =>
        obtain ⟨path, rest⟩ := found
        rw [hplace] at h
        have hsame := h (splitPath path) List.mem_cons_self
        have hfill : fill rt c path = fill rt c' path := by
          rw [fill, fill, hsame.isNullish, hsame.string hrt]
        have hrest := ih fun other hother => h other (List.mem_cons_of_mem _ hother)
        dsimp only
        rw [hfill, hrest]

theorem renderValue_congr (hrt : Extensional rt) (h : Agree c c' (valuePaths v)) :
    renderValue rt v c = renderValue rt v c' := by
  cases v with
  | string text => exact congrArg (fun chars => Value.string (.ofList chars)) (renderFrom_congr hrt h)
  | _ => rfl

theorem evaluateCondition_congr (hrt : Extensional rt) (cond : WorkflowCondition)
    (h : Same (resolvePath c cond.field) (resolvePath c' cond.field)) :
    evaluateCondition rt cond c = evaluateCondition rt cond c' :=
  h.applyOperator hrt cond.op cond.value

theorem renderedValue_congr (hrt : Extensional rt) (hvar : categoryOf registry node = some .variable)
    (h : Agree c c' (paths rt registry node)) : renderedValue rt node c = renderedValue rt node c' := by
  rw [paths, hvar] at h
  exact renderValue_congr hrt h

theorem renderConfig_congr (hrt : Extensional rt) (haction : categoryOf registry node = some .action)
    (h : Agree c c' (paths rt registry node)) :
    renderConfig rt node.config c = renderConfig rt node.config c' := by
  rw [paths, haction] at h
  refine List.map_congr_left fun entry hentry => ?_
  have hvalue : Agree c c' (valuePaths entry.2) := fun path hpath =>
    h path (List.mem_flatMap.2 ⟨entry, hentry, hpath⟩)
  rw [renderValue_congr hrt hvalue]

theorem chooseBranch_congr (hrt : Extensional rt) {resolved : WorkflowNode}
    (h : Agree c c' (resolved.config.branches.map (·.condition.field))) :
    chooseBranch rt resolved c = chooseBranch rt resolved c' := by
  rw [chooseBranch, chooseBranch, List.find?_congr fun rule hrule => ?_]
  rw [evaluateCondition_congr hrt rule.condition (h _ (List.mem_map_of_mem hrule))]

theorem portsOf_congr (hrt : Extensional rt) (h : Agree c c' (paths rt registry node)) :
    portsOf rt registry node c = portsOf rt registry node c' := by
  rw [portsOf, portsOf]
  split_ifs
  · rfl
  · rw [firedPorts, firedPorts]
    rw [category_resolve]
    rw [paths] at h
    cases hcategory : categoryOf registry node with
    | none => rfl
    | some category =>
      rw [hcategory] at h
      cases category with
      | condition =>
        dsimp only at h ⊢
        rw [show (resolve rt registry node).config = readConfig rt node.config from rfl]
        cases hcond : readCondition (readConfig rt node.config) with
        | none => rfl
        | some cond =>
          have hsame := h cond.field (by simp [hcond])
          dsimp only
          rw [evaluateCondition_congr hrt cond hsame]
      | branch => exact congrArg (fun port => [port]) (chooseBranch_congr hrt h)
      | _ => rfl

end Same

/-! ### The program -/

/-- What paths are resolved in, while the variables have these values. -/
def contextOf (inputContext fields : List (String × Value)) : Value :=
  .object (("vars", .object fields) :: (inputContext ++ [("trigger", .object inputContext)]))

def setField (key : String) (value : Value) (fields : List (String × Value)) : List (String × Value) :=
  (key, value) :: fields.filter fun field => field.1 ≠ key

theorem lookup_setField {key other : String} {value : Value} {fields : List (String × Value)} :
    (setField key value fields).lookup other =
      if key = other then some value else fields.lookup other := by
  rw [setField, List.lookup_cons]
  by_cases hother : other = key
  · simp [hother]
  · rw [if_neg (Ne.symm hother), beq_false_of_ne hother]
    dsimp only
    induction fields with
    | nil => rfl
    | cons field fields ih =>
      obtain ⟨k, v⟩ := field
      by_cases hk : k = key
      · rw [List.filter_cons_of_neg (by simpa using hk), ih, List.lookup_cons,
          beq_false_of_ne (hk ▸ hother)]
      · rw [List.filter_cons_of_pos (by simpa using hk), List.lookup_cons, List.lookup_cons, ih]

/-- What leads into a variable resolves to the same when the variable has one value. -/
theorem resolvePath_same {inputContext s t : List (String × Value)} {path : List String}
    (h : ∀ key, leadsTo path key = true → s.lookup key = t.lookup key) :
    Same (resolvePath (contextOf inputContext s) path) (resolvePath (contextOf inputContext t) path) := by
  cases path with
  | nil => exact .refl _
  | cons key path =>
    rw [resolvePath_cons, resolvePath_cons]
    by_cases hkey : key = "vars"
    · subst hkey
      have hvars : ∀ fields : List (String × Value),
          (contextOf inputContext fields).get "vars" = .object fields := fun _ => rfl
      rw [hvars, hvars]
      cases path with
      | nil => exact .object fun key => h key rfl
      | cons key path =>
        have hvalue : (Value.object s).get key = (Value.object t).get key := by
          rw [Value.get, Value.get, h key (by simp [leadsTo])]
        rw [List.foldl_cons, List.foldl_cons, hvalue]
        exact .refl _
    · have hother : (contextOf inputContext s).get key = (contextOf inputContext t).get key := by
        rw [contextOf, contextOf, Value.get, Value.get, List.lookup_cons, List.lookup_cons,
          beq_false_of_ne hkey]
      rw [hother]
      exact .refl _

theorem agree_of_reads {rt : Runtime} {registry : NodeDefinitionLookup} {node : StoredNode}
    {inputContext s t : List (String × Value)}
    (h : ∀ key, readsKey rt registry node key = true → s.lookup key = t.lookup key) :
    Agree (contextOf inputContext s) (contextOf inputContext t) (paths rt registry node) :=
  fun path hpath => resolvePath_same fun key hkey => h key (List.any_eq_true.2 ⟨path, hpath, hkey⟩)

section Program

variable {rt : Runtime} (hrt : Extensional rt) (registry : NodeDefinitionLookup)
  (graph : StoredGraph) (inputContext : List (String × Value))

/-- An edge whose source has fired its port. -/
def IsLive (outputs : String → Option (List String)) (edge : StoredEdge) : Prop :=
  ∃ ports, outputs edge.sourceNodeId = some ports ∧ edge.sourcePort.getD "out" ∈ ports

/-- A trigger is ready, a join when all its edges are live, anything else when one is. -/
def IsReady (outputs : String → Option (List String)) (id : String) : Prop :=
  ∃ node, byId graph id = some node ∧
    (categoryOf registry node = some .trigger ∨
      if categoryOf registry node = some .join then
        (∃ edge ∈ graph.edges, edge.targetNodeId = id) ∧
          ∀ edge ∈ graph.edges, edge.targetNodeId = id → IsLive outputs edge
      else ∃ edge ∈ graph.edges, edge.targetNodeId = id ∧ IsLive outputs edge)

variable {registry graph} in
theorem isReady_mono {outputs outputs' : String → Option (List String)} {id : String}
    (h : ∀ edge ∈ graph.edges, edge.targetNodeId = id → IsLive outputs edge → IsLive outputs' edge)
    (hready : IsReady registry graph outputs id) : IsReady registry graph outputs' id := by
  obtain ⟨node, hnode, hready⟩ := hready
  refine ⟨node, hnode, hready.imp_right fun hready => ?_⟩
  split_ifs at hready ⊢
  · exact ⟨hready.1, fun edge hedge htarget => h edge hedge htarget (hready.2 edge hedge htarget)⟩
  · obtain ⟨edge, hedge, htarget, hlive⟩ := hready
    exact ⟨edge, hedge, htarget, h edge hedge htarget hlive⟩

/-- What the variable is set to. -/
def valueOf (rt : Runtime) (node : StoredNode) (context : Value) : Value :=
  if (setsKey rt registry node).isSome then renderedValue rt node context else .undefined

include hrt in
theorem valueOf_congr {node : StoredNode} {c c' : Value} (h : Agree c c' (paths rt registry node)) :
    valueOf registry rt node c = valueOf registry rt node c' := by
  rw [valueOf, valueOf]
  split_ifs with hsets
  · refine renderedValue_congr hrt ?_ h
    rw [setsKey] at hsets
    split_ifs at hsets with hkey
    · exact hkey.1
    · cases hsets
  · rfl

def setFields (rt : Runtime) (node : StoredNode) (fields : List (String × Value)) :
    List (String × Value) :=
  match setsKey rt registry node with
  | some key => setField key (valueOf registry rt node (contextOf inputContext fields)) fields
  | none => fields

def program : Program String (List (String × Value)) String Value (List String) where
  start := []
  get fields key := fields.lookup key
  target id := (byId graph id).bind (setsKey rt registry)
  reads id key := (byId graph id).any (fun node => readsKey rt registry node key) = true
  value id fields := Value.ofOption
    (fun node => valueOf registry rt node (contextOf inputContext fields)) (byId graph id)
  output id fields := ((byId graph id).map fun node =>
    portsOf rt registry node (contextOf inputContext fields)).getD []
  fire id fields := ((byId graph id).map fun node =>
    setFields registry inputContext rt node fields).getD fields
  leads u v := ∃ edge ∈ graph.edges, edge.sourceNodeId = u ∧ edge.targetNodeId = v
  ready outputs id := IsReady registry graph outputs id
  get_fire id fields key := by
    cases byId graph id with
    | none => rfl
    | some node =>
      rw [Option.map_some, Option.getD_some, setFields, Option.bind_some]
      cases setsKey rt registry node with
      | none => rfl
      | some other => 
        dsimp only
        rw [lookup_setField]
        simp only [Option.some.injEq]
        rfl
  value_congr {id s t} h := by
    cases hid : byId graph id with
    | none => rfl
    | some node =>
      rw [hid] at h
      exact valueOf_congr hrt registry (agree_of_reads h)
  output_congr {id s t} h := by
    cases hid : byId graph id with
    | none => rfl
    | some node =>
      rw [hid] at h
      exact portsOf_congr hrt (agree_of_reads h)
  ready_congr {id outputs outputs'} h := by
    have hlive : ∀ edge ∈ graph.edges, edge.targetNodeId = id → IsLive outputs edge →
        IsLive outputs' edge := by
      rintro edge hedge rfl ⟨ports, hports, hmem⟩
      exact ⟨ports, (h _ ⟨edge, hedge, rfl, rfl⟩) ▸ hports, hmem⟩
    exact isReady_mono hlive
  ready_mono {id outputs outputs'} h := by
    refine isReady_mono fun edge _ _ hlive => ?_
    obtain ⟨ports, hports, hmem⟩ := hlive
    exact ⟨ports, h _ ports hports, hmem⟩

end Program

end UltraTorrent.Workflows.GraphProgram
