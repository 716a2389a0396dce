import Mathlib.Data.List.Infix
import UltraTorrent.Library.EcmaScript

/-! The constrained operator set the condition evaluators share. -/
namespace UltraTorrent.Workflows.ConditionEval

open Library.EcmaScript

/-- A stored condition names its operator by a free string, so a text outside the fixed
set is an operator too. -/
inductive ConditionOperator where
  | eq
  | neq
  | gt
  | gte
  | lt
  | lte
  | contains
  | matches
  | other (text : String)
  deriving DecidableEq

def ConditionOperator.text : ConditionOperator → String
  | .eq => "eq"
  | .neq => "neq"
  | .gt => "gt"
  | .gte => "gte"
  | .lt => "lt"
  | .lte => "lte"
  | .contains => "contains"
  | .matches => "matches"
  | .other text => text

/-- `haystack.includes(needle)`. -/
def includes (haystack needle : String) : Bool :=
  haystack.toList.tails.any needle.toList.isPrefixOf

/-- An invalid pattern matches nothing. -/
def applyOperator (rt : Runtime) (op : ConditionOperator) (actual value : Value) : Bool :=
  match op with
  | .eq => actual.strictEq value
  | .neq => !actual.strictEq value
  | .gt => (rt.number value).lt (rt.number actual)
  | .gte => (rt.number value).le (rt.number actual)
  | .lt => (rt.number actual).lt (rt.number value)
  | .lte => (rt.number actual).le (rt.number value)
  | .contains => includes (rt.string actual) (rt.string value)
  | .matches => (rt.regexTest (rt.string value) (rt.string actual)).getD false
  | .other _ => false

/-- Follows a path of keys; an empty path resolves nothing. -/
def resolvePath (context : Value) : List String → Value
  | [] => .undefined
  | path => path.foldl (fun cur key => cur.get key) context

theorem resolvePath_cons {context : Value} {key : String} {path : List String} :
    resolvePath context (key :: path) = path.foldl (fun cur key => cur.get key) (context.get key) := rfl

structure WorkflowCondition where
  field : List String
  op : ConditionOperator
  value : Value

def evaluateCondition (rt : Runtime) (cond : WorkflowCondition) (context : Value) : Bool :=
  applyOperator rt cond.op (resolvePath context cond.field) cond.value

end UltraTorrent.Workflows.ConditionEval

/-! Values written into a node's configuration, with the paths between double braces that are
filled in from the context. -/
namespace UltraTorrent.Workflows.Template

open Library.EcmaScript ConditionEval

/-- `[\w.]`. -/
def isPathChar (c : Char) : Bool := c.isAlphanum || c = '_' || c = '.'

/-- `path.split('.')`. -/
def splitPath (path : List Char) : List String := (path.splitOn '.').map String.ofList

/-- A path between double braces, and what follows it. -/
def placeholder : List Char → Option (List Char × List Char)
  | '\x7b' :: '\x7b' :: rest =>
    let inner := rest.dropWhile Char.isWhitespace
    let path := inner.takeWhile isPathChar
    match path, (inner.dropWhile isPathChar).dropWhile Char.isWhitespace with
    | [], _ => none
    | path, '\x7d' :: '\x7d' :: rest => some (path, rest)
    | _, _ => none
  | _ => none

/-- What a path is replaced by: nothing when it leads nowhere. -/
def fill (rt : Runtime) (context : Value) (path : List Char) : List Char :=
  let resolved := resolvePath context (splitPath path)
  if resolved.isNullish then [] else (rt.string resolved).toList

/-- A text with its paths replaced from left to right; every character is looked at once, so
its length is budget enough. -/
def renderFrom (rt : Runtime) (context : Value) : ℕ → List Char → List Char
  | 0, text => text
  | _ + 1, [] => []
  | budget + 1, c :: text =>
    match placeholder (c :: text) with
    | some (path, rest) => fill rt context path ++ renderFrom rt context budget rest
    | none => c :: renderFrom rt context budget text

def renderValue (rt : Runtime) (value context : Value) : Value :=
  match value with
  | .string text => .string (.ofList (renderFrom rt context text.length text.toList))
  | value => value

def renderConfig (rt : Runtime) (config : List (String × Value)) (context : Value) :
    List (String × Value) :=
  config.map fun entry => (entry.1, renderValue rt entry.2 context)

end UltraTorrent.Workflows.Template
