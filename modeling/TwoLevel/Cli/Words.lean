import TwoLevel.Text.Numeral
import TwoLevel.Text.Quoted

/-! # Words of a command line

Options are given by a table of their names and of how many values each one takes.  Every word of
a command line is an option, a value, or unknown; long options may be shortened to any text that
begins only one of them, a value may be attached to an option, and one-letter flags may be bundled
behind one dash.  Each option then takes the values that follow it.

The words are read from left to right, so the reading of a faulty line still holds the options in
front of the fault. -/

namespace TwoLevel.Cli

/-! ### Options -/

/-- How many values an option takes. -/
inductive Arity where
  | none
  | one
  | many
deriving DecidableEq, Repr

/-- An option under all its names. -/
structure Choice (κ : Type) where
  key : κ
  names : List String
  arity : Arity

/-- The names of an option as messages show them. -/
def Choice.label {κ : Type} (o : Choice κ) : String := "/".intercalate o.names

/-- What is wrong with a command line. -/
inductive UsageFault where
  | ambiguous (word : String) (names : List String)
  | unexpectedValue (label value : String)
  | missingValue (label : String)
  | missingValues (label : String)
  | invalidInteger (label value : String)
  | invalidChoice (label value : String) (choices : List String)
  | unknownWords (words : List String)
  | tableWithTerms
  | noMinterms
  | inputTooWide (input : Int) (bits : Nat)
  | widthOutOfRange (limit : Nat)
  | wrongNameCount (width : Int) (count : Nat)
deriving DecidableEq, Repr

/-- The sentence that tells the user about a fault. -/
def UsageFault.message : UsageFault → String
  | ambiguous word names =>
      "ambiguous option: " ++ word ++ " could match " ++ ", ".intercalate names
  | unexpectedValue label value =>
      "argument " ++ label ++ ": ignored explicit argument " ++ Text.quoted value
  | missingValue label => "argument " ++ label ++ ": expected one argument"
  | missingValues label => "argument " ++ label ++ ": expected at least one argument"
  | invalidInteger label value =>
      "argument " ++ label ++ ": invalid int value: " ++ Text.quoted value
  | invalidChoice label value choices =>
      "argument " ++ label ++ ": invalid choice: " ++ Text.quoted value ++ " (choose from " ++
        ", ".intercalate (choices.map Text.quoted) ++ ")"
  | unknownWords words => "unrecognized arguments: " ++ " ".intercalate words
  | tableWithTerms => "--truth-table cannot be combined with explicit terms"
  | noMinterms => "no minterms given (use --minterms, --patterns or --truth-table)"
  | inputTooWide input bits =>
      "input " ++ toString input ++ " does not fit in " ++ toString bits ++ " bits"
  | widthOutOfRange limit => "--width must be between 1 and " ++ toString limit
  | wrongNameCount width count =>
      "--vars needs " ++ toString width ++ " names, got " ++ toString count

/-! ### Words -/

/-- What a word is. -/
inductive Word (κ : Type) where
  /-- A value of the option before it. -/
  | value (text : String)
  /-- An option; `dashes` counts those in front of the name it was given by. -/
  | choice (option : Choice κ) (dashes : Nat) (attached : Option String)
  /-- A word that belongs to no option. -/
  | stray (text : String)

variable {κ : Type} (table : List (Choice κ))

/-- The option of a name. -/
def named? (name : List Char) : Option (Choice κ) :=
  table.find? fun o => o.names.any fun n => n.toList = name

/-- All names in the order of the table, each with its option. -/
def allNames : List (String × Choice κ) :=
  table.flatMap fun o => o.names.map fun n => (n, o)

/-- The number of dashes that a word begins with, counting two at most. -/
def dashes : List Char → Nat
  | '-' :: '-' :: _ => 2
  | '-' :: _ => 1
  | _ => 0

/-- The parts of a word before and behind the first equals sign, if it has one. -/
def splitAtEquals (word : List Char) : List Char × Option String :=
  match word.dropWhile (· ≠ '=') with
  | _ :: attached => (word.takeWhile (· ≠ '='), some (String.ofList attached))
  | [] => (word, none)

/-- The options a word can stand for, each with the name meant and the attached value. -/
def candidates (word : List Char) : List (String × Word κ) :=
  if dashes word = 2 then
    let (start, attached) := splitAtEquals word
    (allNames table).filterMap fun (name, o) =>
      if start.isPrefixOf name.toList then some (name, .choice o 2 attached) else none
  else
    (allNames table).filterMap fun (name, o) =>
      if name.toList = word.take 2 then
        some (name, .choice o 1 (some (String.ofList (word.drop 2))))
      else if word.isPrefixOf name.toList then
        some (name, .choice o (dashes name.toList) none)
      else none

/-- Whether a word is a negative number: digits of any script behind a dash, possibly with a point
in front of the last of them, and possibly with a line end after them. -/
def isNegativeNumber : List Char → Bool
  | '-' :: rest =>
    let number := if rest.getLast? = some '\n' then rest.dropLast else rest
    match number.dropWhile Text.isDigit with
    | [] => !number.isEmpty
    | '.' :: fraction => !fraction.isEmpty && fraction.all Text.isDigit
    | _ => false
  | _ => false

/-- What a word is, on its own. -/
def classify (text : String) : Except UsageFault (Word κ) :=
  let word := text.toList
  if dashes word = 0 ∨ word = ['-'] then .ok (.value text)
  else
    match named? table word with
    | some o => .ok (.choice o (dashes word) none)
    | none =>
      let (start, attached) := splitAtEquals word
      match if attached.isSome then named? table start else none with
      | some o => .ok (.choice o (dashes word) attached)
      | none =>
        match candidates table word with
        | [(_, found)] => .ok found
        | [] => .ok (if isNegativeNumber word || word.contains ' ' then .value text else .stray text)
        | several => .error (.ambiguous text (several.map Prod.fst))

/-- What the words of a command line are; behind a word of two dashes no word belongs to an
option. -/
def classifyAll : List String → Except UsageFault (List (Word κ))
  | [] => .ok []
  | text :: words =>
    if text = "--" then .ok ((text :: words).map .stray)
    else
      match classify table text with
      | .error f => .error f
      | .ok word => (classifyAll words).map (word :: ·)

/-! ### Options with their values -/

/-- The values in front of a list of words, and the other words each with the values behind it. -/
def grouped : List (Word κ) → List String × List (Word κ × List String)
  | [] => ([], [])
  | .value text :: words =>
    let (values, groups) := grouped words
    (text :: values, groups)
  | word :: words =>
    let (values, groups) := grouped words
    ([], (word, values) :: groups)

/-- An option together with its values. -/
abbrev Setting (κ : Type) := Choice κ × List String

/-- The flags of a bundle, then its last option with the value left for it.  The bundle is `o`
followed by the characters attached to it, which name more flags behind a single dash. -/
def unbundle (o : Choice κ) (dashes : Nat) :
    List Char → Except UsageFault (List (Setting κ) × Choice κ × Option String)
  | [] =>
    if o.arity = .none then .error (.unexpectedValue o.label "") else .ok ([], o, some "")
  | c :: rest =>
    let attached := String.ofList (c :: rest)
    if o.arity ≠ .none then .ok ([], o, some attached)
    else
      match if dashes = 1 then named? table ['-', c] else none with
      | none => .error (.unexpectedValue o.label attached)
      | some next =>
        if rest.isEmpty then .ok ([(o, [])], next, none)
        else (unbundle next 1 rest).map fun (flags, last) => ((o, []) :: flags, last)

/-- The settings of a bundle that is followed by some values, and the values it does not take. -/
def takeValues (o : Choice κ) (dashes : Nat) (attached : Option String) (values : List String) :
    Except UsageFault (List (Setting κ) × List String) :=
  let bundle : Except UsageFault (List (Setting κ) × Choice κ × Option String) :=
    match attached with
    | none => .ok ([], o, none)
    | some text => unbundle table o dashes text.toList
  bundle.bind fun (flags, last, attached) =>
    match attached, last.arity, values with
    | some value, _, _ => .ok (flags ++ [(last, [value])], values)
    | none, .none, _ => .ok (flags ++ [(last, [])], values)
    | none, .one, value :: values => .ok (flags ++ [(last, [value])], values)
    | none, .one, [] => .error (.missingValue last.label)
    | none, .many, [] => .error (.missingValues last.label)
    | none, .many, _ => .ok (flags ++ [(last, values)], [])

/-- What a command line sets, in order, and then either the words that belong to no option or the
fault at which the reading ended. -/
structure Reading (κ : Type) where
  settings : List (Setting κ)
  rest : Except UsageFault (List String)

/-- Put settings and leftover words in front of a reading. -/
def Reading.after (r : Reading κ) (settings : List (Setting κ)) (words : List String) :
    Reading κ :=
  ⟨settings ++ r.settings, r.rest.map (words ++ ·)⟩

/-- Read options with their values from left to right. -/
def readGroups : List (Word κ × List String) → Reading κ
  | [] => ⟨[], .ok []⟩
  | (.choice o dashes attached, values) :: groups =>
    match takeValues table o dashes attached values with
    | .error f => ⟨[], .error f⟩
    | .ok (settings, left) => (readGroups groups).after settings left
  | (.stray text, values) :: groups => (readGroups groups).after [] (text :: values)
  | (.value text, values) :: groups => (readGroups groups).after [] (text :: values)

/-- Read a command line. -/
def read (words : List String) : Reading κ :=
  match classifyAll table words with
  | .error f => ⟨[], .error f⟩
  | .ok words =>
    let (values, groups) := grouped words
    (readGroups table groups).after [] values

end TwoLevel.Cli
