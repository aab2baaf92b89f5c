import ArgumentSchemes.Files.Site
import ArgumentSchemes.Text.Utf8

/-!
# Reading files

A file is read as bytes, and these as text: either strictly, where bytes that are not UTF-8 are a
fault, or with U+FFFD in the place of what is not.
-/

namespace ArgumentSchemes.Files

namespace Site

/-- The content of the file that a path leads to. -/
def readBytes (s : Site) (p : Path) : Except IoFault (List UInt8) :=
  match s.lookup p with
  | .error fault => .error fault
  | .ok (_, .file content) => .ok content
  | .ok (_, .directory) => .error .isDirectory
  | .ok (_, .link _) => .error .tooManyLinks

/-- The content of a file as text. -/
def readText (s : Site) (p : Path) : Except IoFault String :=
  match s.readBytes p with
  | .error fault => .error fault
  | .ok content =>
    match Text.decode? content with
    | some text => .ok text
    | none => .error .notUtf8

/-- The content of a file as text, where U+FFFD stands for everything that is not UTF-8. -/
def readLossy (s : Site) (p : Path) : Except IoFault String :=
  match s.readBytes p with
  | .error fault => .error fault
  | .ok content => .ok (Text.decodeLossy content)

end Site

end ArgumentSchemes.Files
