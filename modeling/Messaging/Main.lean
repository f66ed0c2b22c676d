import Messaging.CommandLine.Sandbox

/-!
# The command line

Reads the environment and the files that a run may need, prints the log of the run, and ends with
its status.
-/

open Messaging

/-- The text of a file, if there is one that is text. -/
def readText? (path : String) : IO (Option String) := do
  try
    let data ← IO.FS.readBinFile path
    pure (Bytes.toString? data.toList)
  catch _ => pure none

/-- The texts of files by their paths. -/
def readTexts (paths : List String) : IO (List (String × Option String)) :=
  paths.mapM fun path => do pure (path, ← readText? path)

/-- The sandbox. -/
def main (arguments : List String) : IO UInt32 := do
  let filter ← IO.getEnv "RUST_LOG"
  let config ← IO.getEnv "PUBSUB_SANDBOX_CONFIG"
  let path := match Arguments.read arguments with
    | .ok a => Sandbox.configPath a config
    | .error _ => ""
  let text ← readText? path
  let texts ← readTexts ((text.map Configuration.definitionPaths).getD [])
  let files : Files := fun p => (((path, text) :: texts).lookup p).join
  let run := Sandbox.run arguments { files, filter, config }
  for e in run.log do
    IO.println e.line
  pure run.ending.status.toUInt32
