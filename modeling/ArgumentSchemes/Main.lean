import ArgumentSchemes.Disk

/-!
# The program

The command that the arguments give is executed on the part of the disk that it looks at, and what
it changed there is written back.
-/

open ArgumentSchemes in
/-- Executes the command that the arguments give. -/
def main (arguments : List String) : IO UInt32 := do
  try
    let site ← Disk.readSite arguments
    let outcome := Command.run site arguments
    Disk.writeChanges site.tree outcome.tree
    IO.print outcome.output
    IO.eprint outcome.errors
    return outcome.exitCode.toUInt32
  catch fault =>
    IO.eprintln s!"error: {fault}"
    return 1
