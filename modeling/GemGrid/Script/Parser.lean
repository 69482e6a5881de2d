import GemGrid.Condition.Parser
import GemGrid.Script.Count
import GemGrid.Script.Error
import GemGrid.Script.Header
import GemGrid.Script.Token

/-!
# Parsing scripts

A script is a sequence of statements and function definitions.  Guards, loops and functions have
a header token followed by a block in braces; functions are defined at the top only.

    script    = { function | statement }
    function  = FUNC-HEADER block
    statement = IF-HEADER block [ ELSE ( block | statement that is an IF ) ]
              | WHILE-HEADER block
              | LOOP-HEADER block
              | CALL
    block     = "{" { statement } "}"

Each function returns the tokens that it leaves over and stops at the first mishap.  As for
conditions, the pieces of the grammar are written for an arbitrary parser of statements, so that
`statement` is the only function that calls itself.  Its first argument bounds the tokens that
are left; a bound of zero means that the script has ended.

On the way the parser remembers one thing of what it has read: whether there was an `if` or a
`while`, in the main part or in a function.  This memory is the state of `Parsing`.  It is empty at
the start of a script, `noteDynamic` sets it, and nothing clears it; the metadata of the program
are made from what it says at the end.

A mishap knows its place only by line.  `Script.ofTokens` looks up the text to show with it.
-/

namespace GemGrid.Script

/-- Where a mishap happened. -/
inductive Place where
  | nowhere
  | line (n : Nat)
  | scriptEnd
  | statement (source : SourceRef)
deriving DecidableEq, Repr

/-- A fault and where it happened. -/
structure Mishap where
  fault : ScriptFault
  place : Place
deriving DecidableEq, Repr

/-- A piece of a script and the tokens after it. -/
abbrev Piece (α : Type) := α × List Token

/-- What reads a part of a script.  It may end in a mishap, and its state says whether an `if` or a
`while` has been read so far. -/
abbrev Parsing (α : Type) := StateT Bool (Except Mishap) α

/-- Remembers that an `if` or a `while` has been read. -/
def noteDynamic : Parsing Unit :=
  set true

/-- The line of the next token, or the end of the script. -/
def here : List Token → Place
  | [] => .scriptEnd
  | t :: _ => .line t.line

/-! ## Blocks -/

/-- The statements up to a closing brace or the end of the script. -/
def statements (statement : List Token → Parsing (Piece Stmt)) :
    Nat → List Token → Parsing (Piece (List Stmt))
  | n + 1, t :: ts =>
    if t.kind = .rbrace then return ([], t :: ts)
    else if isFunctionHeader t.text.toList then
      throw { fault := .nestedFunction, place := .line t.line }
    else do
      let (first, rest) ← statement (t :: ts)
      let (more, rest) ← statements statement n rest
      return (first :: more, rest)
  | _, ts => return ([], ts)

/-- The statements between braces.  A block that is not closed is reported where it opens. -/
def block (statement : List Token → Parsing (Piece Stmt)) (n : Nat) :
    List Token → Parsing (Piece (List Stmt))
  | ⟨.lbrace, line⟩ :: ts => do
    match ← statements statement n ts with
    | (body, ⟨.rbrace, _⟩ :: rest) => return (body, rest)
    | _ => throw { fault := .unclosedBlock, place := .line line }
  | ts => throw { fault := .noBlock, place := here ts }

/-! ## Guards -/

/-- The condition of a guard. -/
def guardCondition (keyword : String) (line : Nat) (text : List Char) :
    Except Mishap Condition :=
  if text.isEmpty then .error { fault := .guardBlank keyword, place := .line line }
  else match Condition.parse text with
  | .ok c => .ok c
  | .error e => .error { fault := .guard keyword e, place := .line line }

/-- What follows the block of an `if`: nothing, a block after `else`, or another `if` after
`else`. -/
def alternative (statement : List Token → Parsing (Piece Stmt)) (n : Nat) (header : Token) :
    List Token → Parsing (Piece (Option (List Stmt)))
  | ⟨.otherwise, _⟩ :: ⟨.lbrace, line⟩ :: ts => do
    let (body, rest) ← block statement n (⟨.lbrace, line⟩ :: ts)
    return (some body, rest)
  | ⟨.otherwise, _⟩ :: ⟨.text content, line⟩ :: ts =>
    if (guardText? "if" content.toList).isSome then do
      let (inner, rest) ← statement (⟨.text content, line⟩ :: ts)
      return (some [inner], rest)
    else throw { fault := .elseWithoutBlock, place := .line header.line }
  | ⟨.otherwise, _⟩ :: _ => throw { fault := .elseWithoutBlock, place := .line header.line }
  | ts => return (none, ts)

/-! ## Statements -/

/-- A command or a call. -/
def commandOrCall (header : Token) (content : List Char) : Except Mishap Stmt :=
  match callName? content with
  | none =>
    .error { fault := .unknownStatement (String.ofList content), place := .line header.line }
  | some name =>
    match Command.ofName? (String.ofList name) with
    | some command => .ok (.command command header.source)
    | none => .ok (.call (String.ofList name) header.source)

/-- A statement. -/
def statement : Nat → List Token → Parsing (Piece Stmt)
  | 0, ts => throw { fault := .endedEarly, place := here ts }
  | _ + 1, [] => throw { fault := .endedEarly, place := .scriptEnd }
  | n + 1, header :: ts =>
    match header.kind with
    | .otherwise => throw { fault := .strayElse, place := .line header.line }
    | .lbrace | .rbrace =>
      throw { fault := .strayBrace header.text, place := .line header.line }
    | .text content =>
      let cs := content.toList
      match guardText? "if" cs with
      | some text => do
        noteDynamic
        let condition ← guardCondition "if" header.line text
        let (consequent, rest) ← block (statement n) n ts
        let (alternate, rest) ← alternative (statement n) n header rest
        return (.ifWith condition consequent alternate header.source, rest)
      | none =>
        match guardText? "while" cs with
        | some text => do
          noteDynamic
          let condition ← guardCondition "while" header.line text
          let (body, rest) ← block (statement n) n ts
          return (.whileDo condition body header.source, rest)
        | none =>
          if isLoopHeader cs then
            match loopCount cs with
            | .error e => throw { fault := .loop e, place := .line header.line }
            | .ok count => do
              let (body, rest) ← block (statement n) n ts
              return (.loop count body header.source, rest)
          else do
            let s ← commandOrCall header cs
            return (s, ts)

/-! ## Functions and whole scripts -/

/-- The name of a function definition, which no command and no earlier function may have. -/
def definedName (known : List FunctionDef) (header : Token) : Except Mishap String :=
  let refuse (fault : ScriptFault) : Except Mishap String :=
    .error { fault, place := .line header.line }
  match functionName? header.text.toList with
  | none => refuse (.malformedFunction header.text)
  | some cs =>
    let name := String.ofList cs
    if (Command.ofName? name).isSome then refuse (.reservedName name)
    else if known.any (·.name == name) then refuse (.duplicateFunction name)
    else .ok name

/-- A function definition after its header. -/
def definition (n : Nat) (known : List FunctionDef) (header : Token) (ts : List Token) :
    Parsing (Piece FunctionDef) := do
  let name ← definedName known header
  let (body, rest) ← block (statement n) n ts
  return ({ name, body, source := header.source }, rest)

/-- The main statements and the functions of a script.  The number `n` bounds the tokens. -/
def items (n : Nat) : Nat → List FunctionDef → List Token →
    Parsing (List Stmt × List FunctionDef)
  | k + 1, known, t :: ts =>
    if isFunctionHeader t.text.toList then do
      let (f, rest) ← definition n known t ts
      items n k (known ++ [f]) rest
    else do
      let (first, rest) ← statement n (t :: ts)
      let (more, functions) ← items n k known rest
      return (first :: more, functions)
  | _, known, _ => return ([], known)

/-- A faulty call as a mishap of the script. -/
def ofCallError (e : CallError) : Mishap :=
  { fault := .call e, place := .statement e.site.source }

/-- Checks the calls of a program and counts its commands.  The flag says whether an `if` or a
`while` was read. -/
def assemble (main : List Stmt) (functions : List FunctionDef) (dynamic : Bool) :
    Except Mishap Program := do
  (checkCalls main functions).mapError ofCallError
  let count ← (commandCount main functions).mapError ofCallError
  return {
    main, functions
    metadata := {
      staticCommandCount := count
      hasDynamicControlFlow := dynamic || count.isNone } }

/-- The program of a list of tokens, or the first mishap. -/
def parse (tokens : List Token) : Except Mishap Program := do
  if tokens.isEmpty then .error { fault := .empty, place := .nowhere }
  else
    let ((main, functions), dynamic) ← (items tokens.length tokens.length [] tokens).run false
    if main.isEmpty then .error { fault := .noMain, place := .nowhere }
    else assemble main functions dynamic

/-! ## Places in the text -/

/-- A line of the source as it is shown with an error. -/
def shownLine (source : Source) (n : Nat) : SourceRef :=
  { line := n, text := String.ofList (Text.trim ((source.line? n).getD [])) }

/-- The line and text that a place stands for; the end of a script is the line of its last
token. -/
def Place.resolve (source : Source) (tokens : List Token) : Place → Option SourceRef
  | .nowhere => none
  | .line n => some (shownLine source n)
  | .scriptEnd => tokens.getLast?.map fun t => shownLine source t.line
  | .statement s => some s

/-- The program of a list of tokens; the source is used to show the lines of errors. -/
def ofTokens (source : Source) (tokens : List Token) : Except ScriptError Program :=
  (parse tokens).mapError fun m =>
    { fault := m.fault, site := m.place.resolve source tokens }

/-- The program of a script text. -/
def read (text : String) : Except ScriptError Program :=
  let source := Source.ofString text
  ofTokens source (Token.ofSource source)

end GemGrid.Script
