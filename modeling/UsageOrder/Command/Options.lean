import UsageOrder.Json.Printer

/-!
# Options on the command line

An option is written by its long name, with a value behind an equals sign or as the next word, or by
a letter behind a dash; letters of options without a value may be written together.  Two dashes
alone end the options.

A long option that is not known is answered with the known ones that look like it: those whose
characters agree with its characters, in blocks of the greatest length, for at least three fifths.
-/

namespace UsageOrder

/-- An option of a command. -/
structure OptionSpec where
  long : String
  letter : Option Char := none
  takesValue : Bool := false

/-- What is wrong with the words of a command line. -/
inductive UsageFault where
  | noSuchOption (name : String) (similar : List String)
  | requiresArgument (name : String)
  | takesNoValue (name : String)
  | missingPath
  | pathNotFound (parameter path : String)
  | extraArguments (words : List String)
  | noSuchCommand (name : String)
  | missingCommand

namespace UsageFault

/-- The wording of a fault of the command line. -/
def message : UsageFault → String
  | .noSuchOption name similar =>
    "No such option: " ++ name ++
      match similar with
      | [] => ""
      | [one] => " Did you mean " ++ one ++ "?"
      | many => " (Possible options: " ++ ", ".intercalate many ++ ")"
  | .requiresArgument name => "Option " ++ (Json.str name).shown ++ " requires an argument."
  | .takesNoValue name => "Option " ++ (Json.str name).shown ++ " does not take a value."
  | .missingPath => "Missing argument 'PATH'."
  | .pathNotFound parameter path =>
    "Invalid value for " ++ parameter ++ ": Path " ++ (Json.str path).shown ++ " does not exist."
  | .extraArguments words =>
    "Got unexpected extra argument" ++ (if words.length = 1 then "" else "s") ++ " (" ++
      " ".intercalate words ++ ")"
  | .noSuchCommand name => "No such command " ++ (Json.str name).shown ++ "."
  | .missingCommand => "Missing command."

/-- Whether a fault is told without the usage of the command. -/
def isBare : UsageFault → Bool
  | .requiresArgument _ | .takesNoValue _ => true
  | _ => false

end UsageFault

namespace OptionSpec

/-- The length of the block that two texts start with in common. -/
def commonStart : Text → Text → Nat
  | a :: as, b :: bs => if a = b then commonStart as bs + 1 else 0
  | _, _ => 0

/-- The greatest block that two texts have in common: where it starts in each, and its length.  Of
blocks of one length the first one counts. -/
def greatestBlock (a b : Text) : Nat × Nat × Nat :=
  ((List.range a.length).flatMap fun i => (List.range b.length).map fun j =>
    (i, j, commonStart (a.drop i) (b.drop j))).foldl
      (fun best block => if best.2.2 < block.2.2 then block else best) (0, 0, 0)

/-- How many characters two texts have in common: in the greatest block, and in the same way in
front of it and behind it. -/
def agreement : Nat → Text → Text → Nat
  | 0, _, _ => 0
  | fuel + 1, a, b =>
    let (i, j, size) := greatestBlock a b
    if size = 0 then 0
    else
      agreement fuel (a.take i) (b.take j) + size +
        agreement fuel (a.drop (i + size)) (b.drop (j + size))

/-- The known names that look like a name, at most three of them, in alphabetical order. -/
def similarTo (known : List String) (name : String) : List String :=
  let rated := known.filterMap fun other =>
    let total := other.length + name.length
    let agreed := agreement (total + 1) other.toList name.toList
    if 3 * total ≤ 10 * agreed ∧ 0 < total then some (mkRat (2 * agreed) total, other) else none
  let best := rated.mergeSort fun x y =>
    if x.1 = y.1 then Text.le y.2.toList x.2.toList else decide (y.1 < x.1)
  ((best.take 3).map Prod.snd).mergeSort fun x y => Text.le x.toList y.toList

/-- The options that a word of letters stands for, and whether the next word is the value of the
last one. -/
def ofLetters (specs : List OptionSpec) (next : Option String) :
    Text → Except UsageFault (List (String × String) × Bool)
  | [] => .ok ([], false)
  | letter :: letters =>
    match specs.find? fun spec => decide (spec.letter = some letter) with
    | none => .error (.noSuchOption (String.ofList ['-', letter]) [])
    | some spec =>
      if spec.takesValue then
        if letters.isEmpty then
          match next with
          | some value => .ok ([(spec.long, value)], true)
          | none => .error (.requiresArgument (String.ofList ['-', letter]))
        else .ok ([(spec.long, String.ofList letters)], false)
      else do
        let (found, takesNext) ← ofLetters specs next letters
        .ok ((spec.long, "") :: found, takesNext)

/-- The options that a word stands for, and whether the next word is the value of the last one. -/
def ofWord (specs : List OptionSpec) (word : Text) (next : Option String) :
    Except UsageFault (List (String × String) × Bool) :=
  let name := String.ofList (word.takeWhile (· ≠ '='))
  let value : Option String :=
    if word.contains '=' then some (String.ofList ((word.dropWhile (· ≠ '=')).drop 1)) else none
  match specs.find? fun spec => decide (spec.long = name) with
  | some spec =>
    if spec.takesValue then
      match value, next with
      | some value, _ => .ok ([(name, value)], false)
      | none, some value => .ok ([(name, value)], true)
      | none, none => .error (.requiresArgument name)
    else if value.isSome then .error (.takesNoValue name)
    else .ok ([(name, "")], false)
  | none =>
    if ['-', '-'].isPrefixOf word then
      .error (.noSuchOption name (similarTo (specs.map OptionSpec.long) name))
    else ofLetters specs next (word.drop 1)

/-- Whether a word is written as an option. -/
def isOption (word : String) : Bool := decide (word.toList.head? = some '-' ∧ 1 < word.length)

/-- The options on a command line with their values, in order, and the other words.  Unless options
may stand among the other words, they end at the first of these. -/
def parse (specs : List OptionSpec) (among : Bool) :
    List String → Except UsageFault (List (String × String) × List String)
  | [] => .ok ([], [])
  | word :: words =>
    if word = "--" then .ok ([], words)
    else if isOption word then do
      let (found, takesNext) ← ofWord specs word.toList words.head?
      match takesNext, words with
      | true, _ :: rest => do
        let (options, others) ← parse specs among rest
        .ok (found ++ options, others)
      | _, words => do
        let (options, others) ← parse specs among words
        .ok (found ++ options, others)
    else if among then do
      let (options, others) ← parse specs among words
      .ok (options, word :: others)
    else .ok ([], word :: words)

end OptionSpec
end UsageOrder
