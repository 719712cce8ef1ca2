import TwoLevel.Text.Quoted

/-! # Faults

What can be wrong with an input, as causes; `Fault.message` holds the wording of all of them. -/

namespace TwoLevel

/-- Functions have at most this many inputs, and sources are below two to this power. -/
def maxWidth : Nat := 32

/-- Why an operation has no answer. -/
inductive Fault where
  /-- A pattern or truth table holds a character that means nothing there. -/
  | invalidCharacter (text : String) (position : Nat)
  /-- A pattern has no position at all. -/
  | emptyPattern
  /-- A pattern has more than `maxWidth` positions. -/
  | patternTooWide (text : String)
  /-- An integer is no input of a function of `maxWidth` inputs. -/
  | outOfRange (value : Int)
  /-- A required source lies in no implicant. -/
  | uncovered (source : Int)
  /-- The rows of a chart have no hitting set. -/
  | noCover
  /-- A width is smaller than the terms need. -/
  | widthTooSmall (width : Int) (needed : Nat)
  /-- A width is above `maxWidth`. -/
  | widthTooLarge (width : Int)
  /-- No cover backend has this name, or no name is given. -/
  | unknownMethod (name : Option String)
  /-- A width is asked for without a number. -/
  | blankWidth
  /-- There is no product to choose from. -/
  | noProduct
  /-- A list has no entry at this index. -/
  | noSuchEntry (index : Int)
  /-- Inputs of a negative width cannot be listed. -/
  | negativeWidth
deriving DecidableEq, Repr

namespace Fault

open Text

/-- The place in the text that a fault of a pattern points at. -/
def position? : Fault → Option Nat
  | invalidCharacter _ position => some position
  | emptyPattern => some 0
  | patternTooWide _ => some maxWidth
  | _ => none

/-- The sentence that tells the user about a fault. -/
def message : Fault → String
  | invalidCharacter text position =>
      "invalid character " ++ quoted (String.ofList (text.toList[position]?.toList)) ++
        " at position " ++ toString position ++ " in " ++ quoted text
  | emptyPattern => "empty pattern"
  | patternTooWide text =>
      "pattern " ++ quoted text ++ " is wider than " ++ toString maxWidth ++ " positions"
  | outOfRange value =>
      toString value ++ " does not fit in an unsigned " ++ toString maxWidth ++ "-bit integer"
  | uncovered source =>
      "minterm " ++ toString source ++ " is not covered by any prime implicant"
  | noCover => "MaxSAT solver found no cover"
  | widthTooSmall width needed =>
      "width " ++ toString width ++ " cannot hold inputs needing " ++ toString needed ++ " bits"
  | widthTooLarge width =>
      "width " ++ toString width ++ " exceeds the " ++ toString maxWidth ++ "-bit limit"
  | unknownMethod name =>
      "unknown method " ++ (name.map quoted).getD "[]" ++
        ", expected one of ('petrick', 'maxsat')"
  | blankWidth => "width without a number"
  | noProduct => "no product to choose from"
  | noSuchEntry index => "no entry at index " ++ toString index
  | negativeWidth => "negative width"

end Fault

end TwoLevel
