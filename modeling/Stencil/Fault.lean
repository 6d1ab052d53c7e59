import Stencil.Html.Context
import Stencil.Pipeline.Token
import Stencil.Value.Printer

/-!
# Faults

Everything that can go wrong, from a badly indented line to a block in the wrong context.

* `Cause` lists the causes with the data that their messages name; `Cause.kind` groups them and
  `Cause.detail` words them.
* `Fault` is a cause with the place where it arose: the template, the line and the statement, as far
  as they are known. The first place that is attached stays (`atPlace`, `atLine`, `inStatement`).
* `Fault.message` and `Fault.report` are the texts of a fault without and with its statement.
* `Outcome` are the computations that may stop with a cause; `Outcome.raised` makes a fault of it.
-/

namespace Stencil

/-! ## Kinds -/

/-- The kinds of faults. -/
inductive FaultKind where
  | lineOverindented
  | lineNotCompleted
  | unknownFilter
  | unknownDoctype
  | badSyntax
  | unterminatedAttributes
  | missingAttributeQuotes
  | invalidDelimiter
  | unknownFrontEnd
  | templateNotFound
  | unknownFunction
  | invalidArguments
  | invalidOperation
  | mismatchedBlockContext
  | badSerialization
  | writeFailure
  deriving DecidableEq

namespace FaultKind

/-- The words that a message opens with. -/
def description : FaultKind → String
  | .lineOverindented => "line overindented"
  | .lineNotCompleted => "line not completed"
  | .unknownFilter => "bad handler"
  | .unknownDoctype => "bad doctype"
  | .badSyntax => "syntax error"
  | .unterminatedAttributes => "unterminated attribute list"
  | .missingAttributeQuotes => "missing attribute quotes"
  | .invalidDelimiter => "invalid delimiter"
  | .unknownFrontEnd => "unknown parser"
  | .templateNotFound => "template not found"
  | .unknownFunction => "unknown function"
  | .invalidArguments => "invalid arguments"
  | .invalidOperation => "invalid operation"
  | .mismatchedBlockContext => "mismatched block context"
  | .badSerialization => "could not serialize to internal format"
  | .writeFailure => "failed to write output"

/-- All kinds, in the order of their declaration. -/
def all : List FaultKind :=
  [.lineOverindented, .lineNotCompleted, .unknownFilter, .unknownDoctype, .badSyntax,
    .unterminatedAttributes, .missingAttributeQuotes, .invalidDelimiter, .unknownFrontEnd,
    .templateNotFound, .unknownFunction, .invalidArguments, .invalidOperation,
    .mismatchedBlockContext, .badSerialization, .writeFailure]

end FaultKind

/-! ## Causes -/

/-- What a pipeline needs at a place where something else stands. -/
inductive Wanted where
  | operand
  | closeParen
  | endOfPipeline
  | templateName
  deriving DecidableEq

/-- What messages call it. -/
def Wanted.name : Wanted → String
  | .operand => "operand"
  | .closeParen => "`)`"
  | .endOfPipeline => "end of pipeline"
  | .templateName => "template name"

/-- What the arguments of a composition call have to be. -/
inductive Expected where
  | slotAndTemplate
  | slot
  | template
  | slotDataAndFallback
  deriving DecidableEq

/-- What messages call it. -/
def Expected.name : Expected → String
  | .slotAndTemplate => "a slot and a template name"
  | .slot => "a slot name"
  | .template => "a template name"
  | .slotDataAndFallback => "a slot, one data value and a fallback"

/-- The causes of faults. -/
inductive Cause where
  /-- A cause of the application, with its own words. -/
  | reported (kind : FaultKind) (detail : Option String)
  -- lines of an outline
  | overindented (line : Nat)
  | notCompleted (line : Nat)
  | unknownFilter (content : String)
  | unknownDoctype (content : String)
  | strayElse
  | badElse (clause : String)
  -- tag lines
  | notATag (content : String)
  | unquotedValue (content : String)
  | unclosedValue (content : String)
  | unclosedAttributes (content : String)
  -- settings
  | emptyDelimiter
  | equalDelimiters (delimiter : String)
  -- tokens
  | unexpectedChar (c : Char)
  | trailingUnderscore
  | invalidNumber (spelling : String)
  | unclosedString
  | unclosedRawString
  | badEscape
  -- pipelines
  | unexpectedToken (found : Token) (wanted : Wanted)
  | unexpectedEnd (wanted : Wanted)
  | missingCommand
  | missingValue
  | argumentToConstant (value : Value)
  | fieldOfFunction (name : String)
  | fieldAfterDot
  | nestedTooDeep
  -- delimited sources
  | unclosedAction
  | unclosedComment
  | missingEnd
  | strayEnd
  | elseOutside
  | elseAfterElse
  | elseInDefine
  | namelessDefine
  -- values and functions
  | fieldOf (name : String) (kind : Value.Kind)
  | indexOutOfRange (index : Int)
  | indexOf (kind key : Value.Kind)
  | notIterable (value : Value)
  | incomparable (a b : Value)
  | arity (name : String) (wanted found : Nat)
  | minArity (name : String) (wanted found : Nat)
  | notBasic
  | sizeOf (kind : Value.Kind)
  -- rendering
  | noMain
  | noMainToYield
  | templateMissing (name : String)
  | extendsTooMany (name : String)
  | recursionLimit
  | openBlock
  | noOpenBlock
  | emptyCommand
  | argumentToValue
  | unknownFunction (name : String)
  | expects (name : String) (expected : Expected)
  | wrongContext (slot : String) (kind : BlockKind) (context : HtmlContext)
  | undefinedVariable (name : String)
  | writeFailed
  -- the environment
  | noFrontEnd (extension : String)
  | unreadableTemplate (path : String)
  | unreadableDirectory (path : String)

namespace Cause

/-- The kind of a cause. -/
def kind : Cause → FaultKind
  | .reported kind _ => kind
  | .overindented _ => .lineOverindented
  | .notCompleted _ => .lineNotCompleted
  | .unknownFilter _ => .unknownFilter
  | .unknownDoctype _ => .unknownDoctype
  | .unquotedValue _ | .unclosedValue _ => .missingAttributeQuotes
  | .unclosedAttributes _ => .unterminatedAttributes
  | .emptyDelimiter | .equalDelimiters _ => .invalidDelimiter
  | .incomparable .. | .arity .. | .minArity .. | .notBasic | .sizeOf _ | .expects .. =>
    .invalidArguments
  | .fieldOf .. | .indexOutOfRange _ | .indexOf .. | .notIterable _ | .noMain | .noMainToYield
  | .extendsTooMany _ | .recursionLimit | .openBlock | .noOpenBlock | .argumentToValue
  | .undefinedVariable _ | .unreadableTemplate _ | .unreadableDirectory _ => .invalidOperation
  | .templateMissing _ => .templateNotFound
  | .unknownFunction _ => .unknownFunction
  | .wrongContext .. => .mismatchedBlockContext
  | .writeFailed => .writeFailure
  | .noFrontEnd _ => .unknownFrontEnd
  | _ => .badSyntax

/-- What a message says after the kind. -/
def detail : Cause → Option String
  | .reported _ detail => detail
  | .overindented line => some s!"line {line} is overindented"
  | .notCompleted line => some s!"line {line} is not completed"
  | .unknownFilter content => some content
  | .unknownDoctype content => some content
  | .strayElse => some "else without a matching if, unless or range"
  | .badElse clause => some ("unexpected else clause " ++ Text.quoted clause)
  | .notATag content => some ("tag lines must start with %, . or # in " ++ content)
  | .unquotedValue content => some ("attribute values must have quotation marks for " ++ content)
  | .unclosedValue content =>
    some ("attribute values must have closing quotation marks for " ++ content)
  | .unclosedAttributes content => some ("unterminated attributes for " ++ content)
  | .emptyDelimiter => some "delimiters must not be empty"
  | .equalDelimiters delimiter =>
    some ("left and right delimiter are both " ++ Text.quoted delimiter)
  | .unexpectedChar c => some ("unexpected character " ++ Text.quotedChar c)
  | .trailingUnderscore => some "'_' may not occur at end of number"
  | .invalidNumber spelling => some ("invalid number " ++ Text.quoted spelling)
  | .unclosedString => some "unterminated quoted string"
  | .unclosedRawString => some "unterminated raw quoted string"
  | .badEscape => some "bad string escape"
  | .unexpectedToken found wanted =>
    some ("unexpected " ++ found.name ++ ", expected " ++ wanted.name)
  | .unexpectedEnd wanted => some ("unexpected end of pipeline, expected " ++ wanted.name)
  | .missingCommand => some "missing command"
  | .missingValue => some "missing value for command"
  | .argumentToConstant value => some ("can't give argument to non-function " ++ value.debug)
  | .fieldOfFunction name => some ("function " ++ name ++ " can't have fields")
  | .fieldAfterDot => some "unexpected field after `.`"
  | .nestedTooDeep => some "pipeline exceeds maximum recursion limits"
  | .unclosedAction => some "unclosed action"
  | .unclosedComment => some "unclosed comment"
  | .missingEnd => some "missing end"
  | .strayEnd => some "unexpected end"
  | .elseOutside => some "unexpected else"
  | .elseAfterElse => some "expected end; found else"
  | .elseInDefine => some "unexpected else in define"
  | .namelessDefine => some "define requires a template name"
  | .fieldOf name kind => some ("can't evaluate field " ++ name ++ " in type " ++ kind.name)
  | .indexOutOfRange index => some s!"index out of range: {index}"
  | .indexOf kind key => some ("can't index item of type " ++ kind.name ++ " with " ++ key.name)
  | .notIterable value => some ("range can't iterate over " ++ value.display)
  | .incomparable a b =>
    some ("incompatible types for comparison: " ++ a.debug ++ " and " ++ b.debug)
  | .arity name wanted found =>
    some s!"wrong number of args for {name}: want {wanted} got {found}"
  | .minArity name wanted found =>
    some s!"wrong number of args for {name}: want at least {wanted} got {found}"
  | .notBasic => some "eq can only compare basic types"
  | .sizeOf kind => some ("len of type " ++ kind.name)
  | .noMain => some "render context has no main template"
  | .noMainToYield => some "there is no main template to yield"
  | .templateMissing name => some ("template " ++ Text.quoted name ++ " does not exist")
  | .extendsTooMany name => some (name ++ " extends too many templates")
  | .recursionLimit => some "recursion limit exceeded"
  | .openBlock => some "block is missing its end_block"
  | .noOpenBlock => some "end_block without an open block"
  | .emptyCommand => some "empty command"
  | .argumentToValue => some "can't give argument to non-function"
  | .unknownFunction name => some ("function " ++ name ++ " is unknown")
  | .expects name expected => some (name ++ " expects " ++ expected.name)
  | .wrongContext slot kind context =>
    some ("block " ++ slot ++ " holds " ++ kind.name ++ " content but is used in " ++ context.name ++
      " context")
  | .undefinedVariable name => some ("undefined variable $" ++ name)
  | .writeFailed => some "I/O error during rendering"
  | .noFrontEnd extension => some ("no front end registered for " ++ Text.quoted extension)
  | .unreadableTemplate path => some ("could not read template " ++ path)
  | .unreadableDirectory path => some ("could not read directory " ++ path)

end Cause

/-! ## Faults with a place -/

/-- A cause and its place. Lines count from one, and line zero stands for one that is not known. -/
structure Fault where
  cause : Cause
  template : Option String := none
  line : Nat := 0
  statement : Option String := none

namespace Fault

/-- The kind of a fault. -/
def kind (f : Fault) : FaultKind := f.cause.kind

/-- Attaches a line unless one is known. -/
def atLine (f : Fault) (line : Nat) : Fault := if f.line = 0 then { f with line } else f

/-- Attaches a template and, unless one is known, a line; a fault that has a template keeps its
place. -/
def atPlace (f : Fault) (template : String) (line : Nat) : Fault :=
  match f.template with
  | some _ => f
  | none => { f with template := some template }.atLine line

/-- Attaches a statement and, unless one is known, its line. -/
def inStatement (f : Fault) (statement : String) (line : Nat) : Fault :=
  let f := f.atLine line
  match f.statement with
  | some _ => f
  | none => { f with statement := some statement }

/-- The message of a fault. -/
def message (f : Fault) : String :=
  let what := match f.cause.detail with
    | some detail => f.kind.description ++ ": " ++ detail
    | none => f.kind.description
  match f.template with
  | some name => s!"{what} (in {name}:{f.line})"
  | none => what

/-- A number with spaces in front up to a width of four. -/
def padded (n : Nat) : String :=
  let digits := toString n
  String.ofList (List.replicate (4 - digits.length) ' ') ++ digits

/-- The message of a fault, and on a second line the statement that it arose in. -/
def report (f : Fault) : String :=
  match f.statement with
  | some statement => f.message ++ "\n" ++ padded f.line ++ " > " ++ statement
  | none => f.message

end Fault

/-- A computation that may stop with a cause. -/
abbrev Outcome := Except Cause

namespace Outcome

/-- The outcome with faults in place of causes; they have no place yet. -/
def raised {α : Type} (o : Outcome α) : Except Fault α := o.mapError fun cause => { cause }

@[simp] theorem raised_ok {α : Type} (a : α) : raised (.ok a) = .ok a := rfl

@[simp] theorem raised_error {α : Type} (c : Cause) : (raised (.error c) : Except Fault α) =
    .error { cause := c } := rfl

theorem raised_eq_ok {α : Type} {o : Outcome α} {a : α} : o.raised = .ok a ↔ o = .ok a := by
  cases o <;> simp

theorem raised_eq_error {α : Type} {o : Outcome α} {f : Fault} :
    o.raised = .error f ↔ ∃ c, o = .error c ∧ f = { cause := c } := by
  cases o <;> simp [eq_comm]

/-- A computation of two steps succeeds if both do. -/
theorem bind_eq_ok {α β : Type} {o : Outcome α} {f : α → Outcome β} {b : β} :
    (o >>= f) = .ok b ↔ ∃ a, o = .ok a ∧ f a = .ok b := by
  cases o with
  | ok a => simp [Bind.bind, Except.bind]
  | error c => simp [Bind.bind, Except.bind]

end Outcome

end Stencil
