import BootImage.Text.Number

/-!
# Options and operands

What a command line consists of: options with their values, and operands. The long name of an option
may be cut short as long as it fits no other option, and a value may follow behind an equals sign.
Two dashes there are no value: the option is given without one.

## Main definitions

* `Rule`, `Grammar`: the options and operands of a command.
* `Token`, `Grammar.classify`: what a word of the command line is.
* `Parsed`, `Grammar.parse`: the options and operands of a command line.
* `Exit`: why a command line runs no command.
-/

namespace BootImage.CommandLine

/-- Why a command line runs no command: help was asked for, or it is wrong. -/
inductive Exit
  | help
  | usage
  deriving DecidableEq, Repr

/-- The code that the program ends with. -/
def Exit.code : Exit → Nat
  | .help => 0
  | .usage => 2

/-- How many values an option takes. -/
inductive Arity
  | none
  | one
  | many
  deriving DecidableEq, Repr

/-- An option: its name, its values and whether it has to be given. -/
structure Rule where
  name : String
  arity : Arity := .one
  accepts : String → Bool := fun _ => true
  required : Bool := false

/-- The options of a command and what operands it takes. -/
structure Grammar where
  options : List Rule
  /-- The count of operands. -/
  operands : Nat := 0
  /-- The first operand is a command, and all words after it are its own. -/
  hasCommand : Bool := false

/-- A word of the command line. -/
inductive Token
  | operand (word : String)
  /-- Two dashes; the words after them are operands. -/
  | separator
  /-- An option, with the value behind its equals sign. -/
  | option (rule : Rule) (value : Option String)
  /-- The option for help; `extra` are the characters that follow its name. -/
  | help (extra : Option String)
  /-- An option that there is none of. -/
  | unknown (word : String)

/-- Words are sorted into options and operands before any of them is acted on. -/
abbrev Tokens := List (String × Token)

/-- The options and operands of a command line. `extras` tells that something was left over, `rest`
are the words of a command. -/
structure Parsed where
  options : List (String × List String) := []
  operands : List String := []
  rest : Option (List String) := none
  extras : Bool := false
  deriving Repr, Inhabited

namespace Grammar

/-- Whether a word is a negative number, with digits of any script. A newline after it is let
pass. -/
def isNegativeNumber (word : List Char) : Bool :=
  match if word.getLast? = some '\n' then word.dropLast else word with
  | '-' :: body =>
    let whole := body.takeWhile Text.isDigit
    match body.dropWhile Text.isDigit with
    | [] => whole ≠ []
    | '.' :: fraction => fraction ≠ [] && fraction.all Text.isDigit
    | _ => false
  | _ => false

/-- The long names of the options, with the one for help. -/
def longNames (g : Grammar) : List String :=
  "--help" :: g.options.map (·.name)

/-- The option of a name, with a value. -/
def token (g : Grammar) (name : String) (value : Option String) : Token :=
  match g.options.find? (·.name = name) with
  | some rule => .option rule value
  | none => .help value

/-- A word divided at its first equals sign. -/
def nameAndValue (word : List Char) : List Char × Option String :=
  match word.dropWhile (· ≠ '=') with
  | [] => (word, none)
  | _ :: value => (word.takeWhile (· ≠ '='), some (String.ofList value))

/-- What a word is. A name that is cut short so far that it fits several options is an error. -/
def classify (g : Grammar) (word : String) : Except Exit Token :=
  match word.toList with
  | '-' :: c :: rest =>
    let (name, value) := nameAndValue word.toList
    if g.longNames.contains word then .ok (g.token word none)
    else if g.longNames.contains (String.ofList name) then
      .ok (g.token (String.ofList name) value)
    else
      let found :=
        if c = '-' then g.longNames.filter fun long => name.isPrefixOf long.toList else []
      match found with
      | [long] => .ok (g.token long value)
      | _ :: _ :: _ => .error .usage
      | [] =>
        if c = 'h' then
          .ok (.help (if name = "-h".toList then value else some (String.ofList rest)))
        else if isNegativeNumber word.toList ∨ word.toList.contains ' ' then .ok (.operand word)
        else .ok (.unknown word)
  | _ => .ok (.operand word)

/-- The words with what they are. -/
def tokens (g : Grammar) : List String → Except Exit Tokens
  | [] => .ok []
  | "--" :: rest => .ok (("--", .separator) :: rest.map fun word => (word, .operand word))
  | word :: rest => do
    let t ← g.classify word
    return (word, t) :: (← g.tokens rest)

/-- The operands at the start of tokens. -/
def leadingOperands : Tokens → List String
  | (_, .operand word) :: rest => word :: leadingOperands rest
  | _ => []

/-- Whether what follows the one-letter name of the option for help repeats it. -/
def repeatsHelp (extra : Option String) : Bool :=
  match extra with
  | none => true
  | some s => s ≠ "" && s.toList.all (· = 'h')

/-- What a token adds to the options and operands before it, and how many of the tokens after it go
with it. -/
def step (g : Grammar) (p : Parsed) (word : String) (t : Token) (rest : Tokens) :
    Except Exit (Parsed × Nat) := do
  match t with
  | .operand operand =>
    if g.hasCommand then
      return ({ p with rest := some (operand :: rest.map (·.1)) }, rest.length)
    else if p.operands.length < g.operands then
      return ({ p with operands := p.operands ++ [operand] }, 0)
    else return ({ p with extras := true }, 0)
  | .separator =>
    if g.hasCommand then throw .usage
    return ({ p with extras := p.extras || g.operands == 0 }, 0)
  | .unknown _ => return ({ p with extras := true }, 0)
  | .help extra =>
    if repeatsHelp extra ∧ (extra.isNone ∨ !"--".isPrefixOf word) then throw .help
    throw .usage
  | .option rule value =>
    let (values, taken) ← match rule.arity, value, leadingOperands rest with
      | .none, none, _ => pure ([], 0)
      | .none, some _, _ => throw .usage
      | _, some v, _ => pure (if v = "--" then [] else [v], 0)
      | .one, none, v :: _ => pure ([v], 1)
      | .one, none, [] => throw .usage
      | .many, none, vs => pure (vs, vs.length)
    unless values.all rule.accepts do throw .usage
    return ({ p with options := p.options ++ [(rule.name, values)] }, taken)

/-- The options and operands in tokens, behind those that are known already. -/
def parseFrom (g : Grammar) (p : Parsed) : Tokens → Except Exit Parsed
  | [] => .ok p
  | (word, t) :: rest => do
    let (p, taken) ← g.step p word t rest
    g.parseFrom p (rest.drop taken)
termination_by ts => ts.length
decreasing_by rw [List.length_drop, List.length_cons]; omega

/-- The options and operands of a command line. Every option that has to be given must be there, and
as many operands as there are to be. -/
def parse (g : Grammar) (words : List String) : Except Exit Parsed := do
  let p ← g.parseFrom {} (← g.tokens words)
  for rule in g.options do
    if rule.required ∧ !p.options.any (·.1 = rule.name) then throw .usage
  if p.operands.length < g.operands ∨ (g.hasCommand ∧ p.rest.isNone) then throw .usage
  return p

end Grammar

namespace Parsed

/-- The values of an option each time that it was given. -/
def occurrences (p : Parsed) (name : String) : List (List String) :=
  (p.options.filter (·.1 = name)).map (·.2)

/-- Whether an option was given. -/
def has (p : Parsed) (name : String) : Bool :=
  p.options.any (·.1 = name)

/-- The values of an option the last time that it was given. -/
def values (p : Parsed) (name : String) : List String :=
  (p.occurrences name).getLast?.getD []

/-- The value of an option the last time that it was given, if it was given with one. -/
def value? (p : Parsed) (name : String) : Option String :=
  (p.values name).head?

/-- The value of an option that has a usual one: that one if the option was not given, and none if
it was given without a value. -/
def valueOr {α : Type} (p : Parsed) (name : String) (usual : α) (read : String → Option α) :
    Option α :=
  if p.has name then (p.value? name).bind read else some usual

end Parsed

end BootImage.CommandLine
