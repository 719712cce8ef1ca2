/-! # Laying out text

Padding to a number of characters, lines below each other, the text of a list, and cutting off what
leaves nothing on a page.

Three classes of characters are blank: the blanks of ASCII that lay out a page, the information
separators of ASCII, and the blanks above ASCII.  Which of them may stand around a text is the
matter of the text: `trimmed` takes the test, and `stripped` is its case for all three classes. -/

namespace TwoLevel.Text

/-! ### Padding and joining -/

/-- A text filled up on the left to a number of characters; never cut. -/
def padLeft (width : Nat) (fill : Char) (text : String) : String :=
  String.ofList (text.toList.leftpad width fill)

/-- A text filled up with spaces on the right to a number of characters; never cut. -/
def padRight (width : Nat) (text : String) : String :=
  String.ofList (text.toList.rightpad width ' ')

/-- A text that repeats one character. -/
def rule (width : Nat) (c : Char) : String :=
  String.ofList (List.replicate width c)

/-- Texts put one below the other, with no line end after the last one. -/
def stacked (lines : List String) : String :=
  "\n".intercalate lines

/-- Numbers in square brackets, separated by a comma and a space. -/
def bracketed (numbers : List Int) : String :=
  "[" ++ ", ".intercalate (numbers.map toString) ++ "]"

/-! ### Blanks -/

/-- The blanks of ASCII that lay out a page: space, tab and the line and page ends. -/
def isPageBlank (c : Char) : Bool :=
  c = ' ' || ('\t' ≤ c && c ≤ '\r')

/-- The four information separators of ASCII. -/
def isInfoSeparator (c : Char) : Bool :=
  '\x1c' ≤ c && c ≤ '\x1f'

/-- The blanks above ASCII: the separators of Unicode and the next-line control. -/
def isWideBlank (c : Char) : Bool :=
  [0x85, 0xa0, 0x1680, 0x2028, 0x2029, 0x202f, 0x205f, 0x3000].contains c.toNat ||
    (0x2000 ≤ c.toNat && c.toNat ≤ 0x200a)

/-- All three classes. -/
def isBlank (c : Char) : Bool :=
  isPageBlank c || isInfoSeparator c || isWideBlank c

/-! ### Cutting -/

/-- A list without the elements at both ends that pass a test. -/
def trimmed {α : Type} (drop : α → Bool) (xs : List α) : List α :=
  ((xs.dropWhile drop).reverse.dropWhile drop).reverse

/-- A text without the blanks at both ends. -/
def stripped (text : String) : String :=
  String.ofList (trimmed isBlank text.toList)

end TwoLevel.Text
