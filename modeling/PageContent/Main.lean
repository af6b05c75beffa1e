import PageContent.Dump.Report

/-! The command: reads the files its arguments name, prints what they hold. -/
namespace PageContent

def runCommand (o : Dump.Options) : IO UInt32 := do
  let files ← o.files.mapM fun (path : String) => return (← IO.FS.readBinFile path).toList
  let outcome := Dump.run o files
  match o.outfile, outcome.outfile with
  | some path, some text => IO.FS.writeFile path text
  | _, _ => IO.print outcome.stdout
  match outcome.report with
  | some report => IO.eprintln report
  | none => pure ()
  return outcome.exit.toUInt32

end PageContent

def main (args : List String) : IO UInt32 :=
  match PageContent.Dump.Options.parse args with
  | none => return PageContent.Dump.Outcome.usage.exit.toUInt32
  | some o => PageContent.runCommand o
