import ArgumentSchemes.Emit.Target
import ArgumentSchemes.Text.CharClass

/-!
# The script wrapper

For the script language a scheme becomes a function with one keyword parameter per argument that
returns them as a list. Its docstring repeats the documentation of the scheme, without the line
breaks `\n` that only the documentation tool of the native header knows, and lists the keywords.
-/

namespace ArgumentSchemes.Emit

open Text

/-- The text without the line breaks of the documentation tool: a backslash and an `n` in a row.
They are found from left to right, and what is left is not searched again. -/
def dropBreaks : List Char → List Char
  | '\\' :: 'n' :: rest => dropBreaks rest
  | c :: rest => c :: dropBreaks rest
  | [] => []

/-- A line of the docstring: indented, and without blanks at its end. -/
def docstringLine (text : String) : String :=
  String.ofList (trimEnd (' ' :: ' ' :: dropBreaks text.toList))

/-- The line for an entry in the list of keywords, where all names take `width` places. -/
def keywordLine (width : Nat) (e : Entry) : String :=
  s!"    {padRight width e.argName} -- {e.doc} [{e.constant}]"

/-- The docstring of the wrapper. -/
def docstring (s : Scheme) : List String :=
  ["  \"\"\"", s!"  Helper function for '{s.group}'", ""]
    ++ (s.title :: s.summaryLines).map docstringLine
    ++ ["", "  Keyword arguments:"] ++ s.entries.map (keywordLine s.widestArgName) ++ ["  \"\"\""]

/-- The wrapper of a scheme. -/
def wrapper (s : Scheme) : Except SchemeFault String :=
  let params := joinWith "," (s.argNames.map fun name => s!"{name}=[]")
  let args := joinWith "," s.argNames
  linesFor s (s!"def {s.name}({params}):" :: docstring s ++ [s!"  return [{args}]"])

end ArgumentSchemes.Emit
