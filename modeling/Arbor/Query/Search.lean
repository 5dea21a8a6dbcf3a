import Arbor.Query.Error
import Arbor.Query.Expand
import Arbor.Query.Match
import Arbor.Selector.Printer

/-! # Searching

A chain is evaluated part by part: each part turns the contexts the part before found into the values
that pass it. Nodes and lists are found once, by their identity; scalars have none and are found as
often as they occur. Within one search the values a part finds from a context are remembered, under
the identity of the context and the text of the part. -/

namespace Arbor

/-- Values found so far, latest first, and the identities among them. -/
structure Found where
  values : List Value
  seen : List Nat

/-- What the parts of a selector found from the contexts they were evaluated in. -/
abbrev Memo := List ((Nat × String) × List Value)

namespace Tree

variable {catalogue : Catalogue}

def identity? (tree : Tree catalogue) (value : Value) : Option Nat :=
  value.handle?.map tree.uid

/-- Add a value, unless one of its identity is there already. -/
def addFound (tree : Tree catalogue) (found : Found) (value : Value) : Found :=
  match tree.identity? value with
  | none => { found with values := value :: found.values }
  | some uid =>
    if found.seen.contains uid then found else ⟨value :: found.values, uid :: found.seen⟩

/-- The values without repetition of a node or list, each at its first place. -/
def distinct (tree : Tree catalogue) (values : List Value) : List Value :=
  (values.foldl tree.addFound ⟨[], []⟩).values.reverse

/-- The candidates of a part that pass it. -/
def matchPart (tree : Tree catalogue) (context : Context) (part : Part) : List Value :=
  let passing := (tree.expand context part.combinator).filter fun (value, key) =>
    tree.passesPart value key part
  tree.distinct (passing.map (·.1))

/-- The candidates of a part that pass it, remembered if they were asked for before. -/
def expandPart (tree : Tree catalogue) (memo : Memo) (context : Context) (part : Part) :
    List Value × Memo :=
  match context with
  | .document _ => (tree.matchPart context part, memo)
  | .item handle =>
    let entry := (tree.uid handle, part.text)
    match memo.lookup entry with
    | some values => (values, memo)
    | none =>
      let values := tree.matchPart context part
      (values, (entry, values) :: memo)

/-- What a part finds from several contexts, one after the other. -/
def expandAll (tree : Tree catalogue) (part : Part) : Memo → List Context → List Value × Memo
  | memo, [] => ([], memo)
  | memo, context :: rest =>
    let (values, memo) := tree.expandPart memo context part
    let (others, memo) := tree.expandAll part memo rest
    (values ++ others, memo)

def contexts (values : List Value) : List Context :=
  (values.filterMap (·.handle?)).map .item

/-- What a chain finds from the given contexts. `matched` is what the part before found. -/
def evaluateParts (tree : Tree catalogue) : Memo → List Context → List Value → Chain →
    List Value × Memo
  | memo, _, matched, [] => (matched, memo)
  | memo, start, _, part :: rest =>
    let (values, memo) := tree.expandAll part memo start
    match tree.distinct values with
    | [] => ([], memo)
    | next => tree.evaluateParts memo (contexts next) next rest

/-- What each of several chains finds, one after the other. -/
def evaluateChains (tree : Tree catalogue) (start : Context) : Memo → List Chain → List Value
  | _, [] => []
  | memo, chain :: rest =>
    let (values, memo) := tree.evaluateParts memo [start] [] chain
    values ++ tree.evaluateChains start memo rest

def evaluate (tree : Tree catalogue) (start : Context) (selector : Selector) : List Value :=
  tree.distinct (tree.evaluateChains start [] selector.chains)

/-- Replace lists by their nodes that are not found anyway, from last to first. `before` is what is
left to do, latest first, and `after` what is done. -/
def flattenInto (tree : Tree catalogue) : List Value → List Value → List Value
  | [], after => after
  | .list id :: before, after =>
    let members := ((tree.items id).filterMap fun item => item).map Value.node
    let fresh := members.filter fun member => !before.contains member && !after.contains member
    tree.flattenInto before (fresh ++ after)
  | value :: before, after => tree.flattenInto before (value :: after)

/-- Replace lists by their nodes that are not found anyway. -/
def flatten (tree : Tree catalogue) (found : List Value) : List Value :=
  tree.flattenInto found.reverse []

/-- Refuse a selector with a type name that the catalogue does not know. -/
def checkTypes (_ : Tree catalogue) (selector : Selector) : Except QueryError Unit :=
  match selector.typeNames.find? fun name => !catalogue.knows name with
  | none => .ok ()
  | some name => .error (.unknownType name (Text.closest? name catalogue.knownNames))

def searchSelector (tree : Tree catalogue) (handle : Handle) (selector : Selector) :
    Except QueryError (List Value) :=
  match tree.checkTypes selector with
  | .error error => .error error
  | .ok () => .ok (tree.flatten (tree.evaluate (.item handle) selector))

def search (tree : Tree catalogue) (handle : Handle) (text : String) :
    Except QueryError (List Value) :=
  match Selector.parse text with
  | .error error => .error error
  | .ok selector => tree.searchSelector handle selector

def findUnique (tree : Tree catalogue) (handle : Handle) (text : String) :
    Except QueryError Value :=
  match tree.search handle text with
  | .error error => .error error
  | .ok [] => .error .noMatch
  | .ok [value] => .ok value
  | .ok values => .error (.ambiguousMatch values.length)

/-- The node or list is one a selector selects. A single part is tested on it directly; other
selectors are evaluated from the document around the root of the tree. -/
def matchesSelector (tree : Tree catalogue) (handle : Handle) (selector : Selector) :
    Except QueryError Bool :=
  match tree.checkTypes selector with
  | .error error => .error error
  | .ok () => match selector.simplePart? with
    | some part => .ok (tree.passesPart (.ofHandle handle) none part)
    | none =>
      let found := tree.evaluate (.document (tree.root handle)) selector
      .ok (found.any fun value => tree.identity? value == some (tree.uid handle))

/-- The node or list is one the selector of a text selects. -/
def matchesText (tree : Tree catalogue) (handle : Handle) (text : String) :
    Except QueryError Bool :=
  match Selector.parse text with
  | .error error => .error error
  | .ok selector => tree.matchesSelector handle selector

/-- The node or list is one the selector selects, if there is one. -/
def accepts (tree : Tree catalogue) (text : Option String) (handle : Handle) :
    Except QueryError Bool :=
  match text with
  | none => .ok true
  | some text => tree.matchesText handle text

/-- The first of the items a test accepts; a fault of the test ends the walk. -/
def firstAccepted {α : Type} (test : α → Except QueryError Bool) :
    List α → Except QueryError (Option α)
  | [] => .ok none
  | item :: rest =>
    match test item with
    | .error error => .error error
    | .ok true => .ok (some item)
    | .ok false => firstAccepted test rest

/-- The items a test accepts; a fault of the test ends the walk. -/
def allAccepted {α : Type} (test : α → Except QueryError Bool) :
    List α → Except QueryError (List α)
  | [] => .ok []
  | item :: rest =>
    match test item with
    | .error error => .error error
    | .ok accepted =>
      match allAccepted test rest with
      | .error error => .error error
      | .ok others => .ok (if accepted then item :: others else others)

/-- The programs and functions around a node or list, innermost first. -/
def enclosingScopes (tree : Tree catalogue) (handle : Handle) : List NodeId :=
  ((tree.ancestors handle).filterMap (·.node?)).filter tree.isScope

/-- The innermost ancestor the selector selects, or the innermost of all without a selector. -/
def closestParent (tree : Tree catalogue) (handle : Handle) (text : Option String) :
    Except QueryError (Option Handle) :=
  firstAccepted (tree.accepts text) (tree.ancestors handle)

/-- All ancestors the selector selects, innermost first. -/
def parents (tree : Tree catalogue) (handle : Handle) (text : Option String) :
    Except QueryError (List Handle) :=
  allAccepted (tree.accepts text) (tree.ancestors handle)

/-- The innermost scope around a node or list that the selector selects. -/
def closestScope (tree : Tree catalogue) (handle : Handle) (text : Option String) :
    Except QueryError (Option NodeId) :=
  firstAccepted (fun id => tree.accepts text (.node id)) (tree.enclosingScopes handle)

/-- All scopes around a node or list that the selector selects, innermost first. -/
def scopes (tree : Tree catalogue) (handle : Handle) (text : Option String) :
    Except QueryError (List NodeId) :=
  allAccepted (fun id => tree.accepts text (.node id)) (tree.enclosingScopes handle)

/-- All nodes of the tree that a selector selects, held somewhere or not. -/
def matching (tree : Tree catalogue) (text : String) : Except QueryError (List NodeId) :=
  allAccepted (fun id => tree.matchesText (.node id) text) tree.nodeIds

end Tree
end Arbor
