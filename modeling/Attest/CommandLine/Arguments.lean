/-! # Arguments

    The words after the program's name: a command, then its operands and options
    in any order.  An option that takes a value takes it after an equals sign, or
    takes the next word unless that begins with a dash; a lone dash is a word like
    any other.  After two dashes every word is an operand.  The first problem in
    order ends the reading, and so does a request for help. -/

namespace Attest.CommandLine

/-- What the program is asked to do. -/
inductive Command
  /-- Run a program over an input, with a configuration, and compare the result. -/
  | run (proof : String) (input config : Option String) (unrestricted : Bool)
      (expected : Option String)
  /-- Print the listing of a program. -/
  | disasm (proof : String)
  /-- Write the packed form of a program. -/
  | pack (proof out : String)
  /-- Print the text of a packed program. -/
  | unpack (packed : String)
  deriving DecidableEq, Repr

/-- What keeps the words from being a command. -/
inductive Misuse
  | missingCommand
  | unknownCommand (word : String)
  | unknownOption (word : String)
  | missingValue (option : String)
  | unexpectedValue (option : String)
  | repeatedOption (option : String)
  | emptyPath (operand : String)
  | missingOperand (operand : String)
  | unexpectedOperand (word : String)
  deriving DecidableEq, Repr

/-- The wording of a misuse. -/
def Misuse.message : Misuse → String
  | .missingCommand => "a command is required"
  | .unknownCommand word => s!"unrecognized command '{word}'"
  | .unknownOption word => s!"unexpected option '{word}'"
  | .missingValue option => s!"option '--{option}' needs a value"
  | .unexpectedValue option => s!"option '--{option}' takes no value"
  | .repeatedOption option => s!"option '--{option}' is given more than once"
  | .emptyPath operand => s!"the path for '{operand}' is empty"
  | .missingOperand operand => s!"operand '{operand}' is missing"
  | .unexpectedOperand word => s!"unexpected operand '{word}'"

/-- Why reading the words ended without a command. -/
inductive Ending
  | help
  | misuse (misuse : Misuse)
  deriving DecidableEq, Repr

/-- The form of a command: its operands, all of them paths, its options with a
    value and whether that is a path, and its options without one. -/
structure Form where
  operands : List String
  valued : List (String × Bool)
  flags : List String
  deriving DecidableEq, Repr

/-- The words of a command sorted by what they are, latest first. -/
structure Words where
  operands : List String
  values : List (String × String)
  flags : List String
  deriving DecidableEq, Repr

namespace Words

/-- No words. -/
def empty : Words := ⟨[], [], []⟩

/-- Takes an operand. -/
def takeOperand (form : Form) (words : Words) (word : String) : Except Ending Words :=
  match form.operands[words.operands.length]? with
  | none => .error (.misuse (.unexpectedOperand word))
  | some operand =>
      if word = "" then .error (.misuse (.emptyPath operand))
      else .ok { words with operands := word :: words.operands }

/-- Takes the value of an option. -/
def takeValue (words : Words) (option : String) (isPath : Bool) (value : String) :
    Except Ending Words :=
  if (words.values.lookup option).isSome then .error (.misuse (.repeatedOption option))
  else if isPath ∧ value = "" then .error (.misuse (.emptyPath option))
  else .ok { words with values := (option, value) :: words.values }

/-- Takes an option without a value. -/
def takeFlag (words : Words) (option : String) : Except Ending Words :=
  if option ∈ words.flags then .error (.misuse (.repeatedOption option))
  else .ok { words with flags := option :: words.flags }

/-- Whether a word begins with a dash and is not a lone one. -/
def isDashed (word : String) : Bool :=
  match word.toList with
  | '-' :: _ :: _ => true
  | _ => false

/-- The name of a long option and the value attached to it. -/
def splitOption (text : List Char) : String × Option String :=
  let name := String.ofList (text.takeWhile (· ≠ '='))
  match text.dropWhile (· ≠ '=') with
  | [] => (name, none)
  | _ :: value => (name, some (String.ofList value))

/-- Takes all words as operands. -/
def takeOperands (form : Form) (words : Words) : List String → Except Ending Words
  | [] => .ok words
  | word :: rest => do
      let words ← takeOperand form words word
      takeOperands form words rest

/-- Takes the words of a command. -/
def take (form : Form) (words : Words) : List String → Except Ending Words
  | [] => .ok words
  | word :: rest =>
      match word.toList with
      | ['-', '-'] => takeOperands form words rest
      | '-' :: '-' :: text =>
          let (option, attached) := splitOption text
          match form.valued.lookup option, attached with
          | some isPath, some value => do
              let words ← takeValue words option isPath value
              take form words rest
          | some isPath, none =>
              match rest with
              | value :: rest =>
                  if isDashed value then .error (.misuse (.missingValue option))
                  else do
                    let words ← takeValue words option isPath value
                    take form words rest
              | [] => .error (.misuse (.missingValue option))
          | none, attached =>
              if option = "help" ∨ option ∈ form.flags then
                if attached.isSome then .error (.misuse (.unexpectedValue option))
                else if option = "help" then .error .help
                else do
                  let words ← takeFlag words option
                  take form words rest
              else .error (.misuse (.unknownOption word))
      | '-' :: 'h' :: _ => .error .help
      | '-' :: _ :: _ => .error (.misuse (.unknownOption word))
      | _ => do
          let words ← takeOperand form words word
          take form words rest

end Words

namespace Command

/-- The form of the command with a name. -/
def form? : String → Option Form
  | "run" =>
      some ⟨["proof"], [("input", true), ("config", true), ("expect", false)], ["unrestricted"]⟩
  | "disasm" => some ⟨["proof"], [], []⟩
  | "pack" => some ⟨["proof", "out"], [], []⟩
  | "unpack" => some ⟨["packed"], [], []⟩
  | _ => none

/-- The command with a name, from its sorted words. -/
def ofWords (name : String) (words : Words) : Except Ending Command :=
  let missing (operand : String) : Except Ending Command :=
    .error (.misuse (.missingOperand operand))
  match name, words.operands.reverse with
  | "run", [proof] =>
      .ok (.run proof (words.values.lookup "input") (words.values.lookup "config")
        (decide ("unrestricted" ∈ words.flags)) (words.values.lookup "expect"))
  | "disasm", [proof] => .ok (.disasm proof)
  | "pack", [proof, out] => .ok (.pack proof out)
  | "pack", [_] => missing "out"
  | "unpack", [packed] => .ok (.unpack packed)
  | "unpack", _ => missing "packed"
  | _, _ => missing "proof"

/-- The command that the words after the program's name ask for. -/
def ofArguments : List String → Except Ending Command
  | [] => .error (.misuse .missingCommand)
  | "--help" :: _ => .error .help
  | "help" :: topics =>
      match topics with
      | [] => .error .help
      | topic :: rest =>
          if (form? topic).isSome ∨ topic = "help" then
            match rest with
            | [] => .error .help
            | word :: _ => .error (.misuse (.unknownCommand word))
          else .error (.misuse (.unknownCommand topic))
  | name :: rest =>
      match form? name with
      | some form => do
          let words ← Words.take form .empty rest
          ofWords name words
      | none =>
          match name.toList with
          | '-' :: 'h' :: _ => .error .help
          | '-' :: _ => .error (.misuse (.unknownOption name))
          | _ => .error (.misuse (.unknownCommand name))

end Command

end Attest.CommandLine
