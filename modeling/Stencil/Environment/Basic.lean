import Stencil.Delimited.Template
import Stencil.Environment.Name
import Stencil.Function
import Stencil.Outline.Template

/-!
# Environments

An environment holds the compiled templates with what they are compiled and rendered with: the
functions, the front ends by extension, the settings and the choice of escaping by name.

* `Environment.standard` and `Environment.empty` are the two environments to start from.
* `Update` are the computations on an environment. `Environment.add` compiles and registers a source,
  `Environment.addWith` does so with a given front end, and `Environment.register` registers templates.

A source that fails to compile registers nothing.
-/

namespace Stencil

/-! ## Front ends -/

/-- The languages that a source can be written in. -/
inductive FrontEnd where
  | outline
  | delimited
  deriving DecidableEq

namespace FrontEnd

/-- Compiles a source. -/
def parse : FrontEnd → Settings → String → String → Except Fault (Table Template) × List Event
  | .outline => Outline.parse
  | .delimited => Delimited.parse

/-- The front ends known from the start. -/
def standard : Table FrontEnd := Table.ofList [("bham", .outline), ("tmpl", .delimited)]

end FrontEnd

/-! ## The environment -/

/-- What templates are compiled and rendered with. -/
structure Environment where
  templates : Table Template := []
  functions : Table Function := []
  frontEnds : Table FrontEnd := FrontEnd.standard
  settings : Settings := .standard
  /-- The escaping of a template by its name. -/
  escaping : String → AutoEscape := fun _ => .off

namespace Environment

/-- The part of a name after its last dot, or all of it. -/
def lastExtension (name : String) : String :=
  String.ofList (name.toList.reverse.takeWhile (· ≠ '.')).reverse

/-- The escaping of a new environment: the templates named for markup are escaped. -/
def standardEscaping (name : String) : AutoEscape :=
  if ["html", "htm", "xml"].contains (lastExtension name) then .html else .off

/-- An environment without functions and escaping. -/
def empty : Environment := {}

/-- An environment with the standard functions and escaping. -/
def standard : Environment := { functions := Function.standard, escaping := standardEscaping }

/-- The template of a name. -/
def template (e : Environment) (name : String) : Outcome Template :=
  match Table.get? name e.templates with
  | some t => return t
  | none => throw (.templateMissing name)

/-- The names of all templates. -/
def names (e : Environment) : List String := Table.names e.templates

/-! ## Changes -/

/-- An extension without dots in front. -/
def bareExtension (extension : String) : String :=
  String.ofList (extension.toList.dropWhile (· = '.'))

/-- Sets the front end of an extension. -/
def addFrontEnd (e : Environment) (extension : String) (f : FrontEnd) : Environment :=
  { e with frontEnds := Table.insert (bareExtension extension) f e.frontEnds }

/-- Sets a function. -/
def addFunction (e : Environment) (name : String) (f : Function) : Environment :=
  { e with functions := Table.insert name f e.functions }

/-- Removes a function. -/
def removeFunction (e : Environment) (name : String) : Environment :=
  { e with functions := Table.erase name e.functions }

/-- Removes a template. -/
def removeTemplate (e : Environment) (name : String) : Environment :=
  { e with templates := Table.erase name e.templates }

/-- Registers a template under a name. -/
def put (e : Environment) (name : String) (t : Template) : Environment :=
  { e with templates := Table.insert name { t with escape := e.escaping name } e.templates }

end Environment

/-! ## Registration -/

/-- An environment with what happened to it, the latest first. -/
structure Registry where
  environment : Environment
  events : List Event := []

/-- A computation on an environment. -/
abbrev Update := EStateM Fault Registry

namespace Environment

/-- Registers a template and records it. -/
def registerOne (name : String) (t : Template) : Update PUnit := modify fun r =>
  { environment := r.environment.put name t
    events := .registered name t.nodes.length (r.environment.escaping name) :: r.events }

/-- Registers some templates under their names. -/
def register : Table Template → Update PUnit
  | [] => pure ()
  | (name, t) :: ts => do
    registerOne name t
    register ts

/-- Compiles a source under a logical name and registers its templates. -/
def compile (f : FrontEnd) (name source : String) : Update PUnit := do
  let (result, events) := f.parse (← get).environment.settings name source
  modify fun r => { r with events := events.reverse ++ r.events }
  match result with
  | .ok templates => register templates
  | .error fault => throw fault

/-- Whether an extension names a front end. -/
def isFrontEnd (e : Environment) (extension : String) : Bool :=
  Table.contains extension e.frontEnds

/-- The front end of an extension; sources without one are delimited. -/
def frontEnd (e : Environment) (extension : Option String) : FrontEnd :=
  ((extension.bind fun x => Table.get? x e.frontEnds)).getD .delimited

/-- Compiles a source and registers its templates. The extensions of the name choose the front end. -/
def add (name source : String) : Update PUnit := do
  let e := (← get).environment
  let (name, extension) := logicalName e.isFrontEnd name
  compile (e.frontEnd extension) name source

/-- Compiles a source with the front end of a given extension and registers its templates. -/
def addWith (name source extension : String) : Update PUnit := do
  let e := (← get).environment
  match Table.get? (bareExtension extension) e.frontEnds with
  | none => throw { cause := .noFrontEnd extension }
  | some f => compile f (logicalName e.isFrontEnd name).1 source

/-- Registers a template that is compiled already. -/
def addTemplate (t : Template) : Update PUnit := register [(t.name, t)]

end Environment

end Stencil
