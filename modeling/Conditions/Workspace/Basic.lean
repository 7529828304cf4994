import Conditions.Workspace.Description

/-!
# Workspaces

A workspace is where parsers are put together one step at a time: parsers are given names, forwards
are supplied with the parsers they stand for, and parsers are run. A forward is supplied with a
parser once and for all, and parsers that were put together before that see it as well.
-/

namespace Conditions

/-- What has been put together: a forward, which may be supplied, or any other parser. A copy of a
forward under another name looks up the same place, but it is no forward. -/
inductive Built where
  | forward (place : Nat) (name? : Option String)
  | other (p : Parser)

/-- The parser that has been put together. -/
def Built.parser : Built → Parser
  | forward place none => .forward place
  | forward place (some name) => .named name (.forward place)
  | other p => p

/-- What has been put together and given a name, and the places of the forwards. -/
structure Workspace where
  store : Store
  bindings : List (String × Built)

/-- Why a step is refused. -/
inductive WorkspaceError where
  /-- A value with this description stands where a parser should be. -/
  | notAParser (shown : String)
  /-- A value that cannot be described stands where a parser should be. -/
  | unwritable (e : UnwritableNumber)
  /-- The forward with this name has been supplied with a parser before. -/
  | alreadyDefined (name : String)
  /-- No parser has been given the name. -/
  | unboundName (name : String)
  /-- The parser that has been given the name is not a forward. -/
  | notAForward (name : String)
  /-- A value in the description cannot be read. -/
  | faultyValue (e : FaultyValue)

/-- The words for a step that is refused. -/
def WorkspaceError.message : WorkspaceError → String
  | notAParser shown => "expected a parser or a (tokens, index) callable, got " ++ shown
  | unwritable e => e.message
  | alreadyDefined name => s!"forward parser {name} is already defined"
  | unboundName name => s!"no parser is named {name}"
  | notAForward name => s!"the parser named {name} is not a forward parser"
  | faultyValue e => e.message

/-- The error for a value where a parser should be. It shows the value, if that can be described. -/
def WorkspaceError.ofValue (value : Tree) : WorkspaceError :=
  match value.describe with
  | .ok shown => notAParser shown
  | .error e => unwritable e

/-- What a description stands for: a parser, or a value where a parser should be. -/
inductive Operand where
  | parser (b : Built)
  | value (tree : Tree)

/-- What an operand is, if it is no value. -/
def Operand.toBuilt : Operand → Except WorkspaceError Built
  | parser b => .ok b
  | value tree => .error (.ofValue tree)

/-- The parser that an operand is. -/
def Operand.toParser (x : Operand) : Except WorkspaceError Parser :=
  x.toBuilt.map Built.parser

/-- The parsers that operands are; the first operand that is none is reported. -/
def Operand.toParsers (operands : List Operand) : Except WorkspaceError (List Parser) :=
  operands.mapM toParser

/-- A computation that may take new places in a store, and may be refused. Places taken before it
is refused stay taken. -/
abbrev Building := ExceptT WorkspaceError (StateM Store)

/-- A forward for a new place in the store. -/
def takePlace (name? : Option String) : Building Built := do
  let store ← get
  set (store ++ [⟨name?, none⟩])
  return .forward store.length name?

/-- A parser under another name, or without its name. -/
def Built.copy (b : Built) : (name? : Option String) → Built
  | some name => other (b.parser.rename name)
  | none => other b.parser.unnamed

/-- The production as a parser. That of conditions refers to itself, and is a forward. -/
def Production.built : Production → Built
  | condition => .forward Grammar.conditionPlace (some "condition")
  | production => .other production.parser

theorem Production.parser_built (production : Production) :
    production.built.parser = production.parser := by
  cases production <;> rfl

namespace Description

mutual

/-- Puts a parser together. The parts of a combinator are all read before any of them is found to be
no parser, and each of them is put together before the next is read. -/
def build (bindings : List (String × Built)) : Description → Building Operand
  | empty tree => return .parser (.other (.empty tree))
  | elem kind => return .parser (.other (.token kind))
  | pair first second combine => do
    let first ← first.build bindings
    let second ← second.build bindings
    let first ← first.toParser
    let second ← second.toParser
    return .parser (.other (.pair first second combine))
  | sequence parts => do
    let parts ← buildAll bindings parts
    return .parser (.other (.sequence (← Operand.toParsers parts)))
  | many inner => do
    let inner ← inner.build bindings
    return .parser (.other (.many (← inner.toParser)))
  | choice alternatives => do
    let alternatives ← buildAll bindings alternatives
    return .parser (.other (.choice (← Operand.toParsers alternatives)))
  | transform inner f => do
    let inner ← inner.build bindings
    return .parser (.other (.transform (← inner.toParser) f))
  | parenthesized parts => do
    let parts ← buildAll bindings parts
    return .parser (.other (.parenthesized (← Operand.toParsers parts)))
  | named inner name? => do
    let inner ← inner.build bindings
    let inner ← inner.toBuilt
    return .parser (inner.copy name?)
  | forward name? => return .parser (← takePlace name?)
  | reference name =>
    match bindings.lookup name with
    | some b => return .parser b
    | none => throw (.unboundName name)
  | production p => return .parser p.built
  | value tree => return .value tree
  | probe label inner => do
    let inner ← inner.build bindings
    return .parser (.other (.probe label (← inner.toParser)))
  | jump distance tree => return .parser (.other (.jump distance tree))
  | faulty e => throw (.faultyValue e)

/-- Puts parsers together, from left to right. -/
def buildAll (bindings : List (String × Built)) : List Description → Building (List Operand)
  | [] => return []
  | d :: ds => do
    let x ← d.build bindings
    let xs ← buildAll bindings ds
    return x :: xs

end

end Description

namespace Workspace

/-- A step in a workspace. -/
inductive Step where
  /-- Gives a parser a name. -/
  | bind (name : String) (description : Description)
  /-- Supplies a forward with a parser. -/
  | define (name : String) (description : Description)
  /-- Runs a parser on tokens at an index. -/
  | run (description : Description) (tokens : Array Token) (index : Int)

/-- The answer to a step. -/
inductive Answer where
  /-- The parser has been given a name. -/
  | bound (b : Built)
  /-- The forward has been supplied with a parser. -/
  | defined
  /-- The parser has been run. -/
  | ran (a : Attempt)
  /-- The parser has been run, but the run exceeded its budget. -/
  | exhausted
  /-- The step is refused. -/
  | refused (e : WorkspaceError)

/-- The workspace in which nothing has been done: there are only the places of the grammar. -/
def start : Workspace := ⟨Grammar.store, []⟩

/-- Reads a description, and keeps the places that were taken. -/
def build (w : Workspace) (d : Description) : Workspace × Except WorkspaceError Operand :=
  let (result, store) := (d.build w.bindings).run w.store
  ({ w with store := store }, result)

/-- Reads a description as that of a parser, and keeps the places that were taken. -/
def builtOf (w : Workspace) (d : Description) : Workspace × Except WorkspaceError Built :=
  let (w, result) := w.build d
  (w, result.bind Operand.toBuilt)

/-- The place of the forward that has been given the name, with what is known about it. -/
def forwardAt (w : Workspace) (name : String) : Except WorkspaceError (Nat × Forward) := do
  let some b := w.bindings.lookup name | throw (.unboundName name)
  let .forward place _ := b | throw (.notAForward name)
  let some found := w.store[place]? | throw (.notAForward name)
  return (place, found)

/-- Supplies a forward with what an operand is. A second parser is refused before the operand is
looked at. -/
def supply (w : Workspace) (name : String) (x : Operand) : Except WorkspaceError Workspace := do
  let (place, found) ← w.forwardAt name
  if found.body?.isSome then throw (.alreadyDefined (found.name?.getD ""))
  let p ← x.toParser
  return { w with store := w.store.set place { found with body? := some p } }

/-- Carries out a step. -/
def perform (w : Workspace) : Step → Workspace × Answer
  | .bind name d =>
    match w.builtOf d with
    | (w, .error e) => (w, .refused e)
    | (w, .ok b) => ({ w with bindings := (name, b) :: w.bindings }, .bound b)
  | .define name d =>
    match w.build d with
    | (w, .error e) => (w, .refused e)
    | (w, .ok x) =>
      match w.supply name x with
      | .error e => (w, .refused e)
      | .ok w => (w, .defined)
  | .run d tokens i =>
    match w.builtOf d with
    | (w, .error e) => (w, .refused e)
    | (w, .ok b) =>
      match b.parser.runAt w.store tokens i with
      | some a => (w, .ran a)
      | none => (w, .exhausted)

end Workspace

end Conditions
