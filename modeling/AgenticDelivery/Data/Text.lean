import Mathlib.Data.List.DropRight

/-! # White space in strings

`str.isspace`, the class `\s` of a regular expression over `str`, and `strip`
agree on one set of characters. -/
namespace AgenticDelivery.Data

def isSpace (c : Char) : Bool :=
  let n := c.toNat
  (0x09 ≤ n && n ≤ 0x0d) || (0x1c ≤ n && n ≤ 0x20) || n == 0x85 || n == 0xa0 || n == 0x1680 ||
    (0x2000 ≤ n && n ≤ 0x200a) || n == 0x2028 || n == 0x2029 || n == 0x202f || n == 0x205f ||
    n == 0x3000

/-- `re.sub(r"\s+", " ", text)`; the flag says that a run of white space has begun. -/
def collapseSpaces : Bool → List Char → List Char
  | _, [] => []
  | inRun, c :: rest =>
    if isSpace c then if inRun then collapseSpaces true rest else ' ' :: collapseSpaces true rest
    else c :: collapseSpaces false rest

/-- `text.strip()` -/
def strip (text : List Char) : List Char := (text.dropWhile isSpace).rdropWhile isSpace

/-- `re.sub(r"\s+", " ", request).strip()` -/
def normalizeRequest (request : String) : String :=
  String.ofList (strip (collapseSpaces false request.toList))

example : normalizeRequest " Prepare \t a\n\nplan " = "Prepare a plan" := by decide

end AgenticDelivery.Data
