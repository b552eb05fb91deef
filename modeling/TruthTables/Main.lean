import Std.Time.DateTime.Timestamp
import TruthTables.CommandLine.Run

/-! # The command -/
namespace TruthTables.CommandLine

def twoDigits (n : Nat) : String := String.ofList [Nat.digitChar (n / 10), Nat.digitChar (n % 10)]

/-- The time of day, `n` seconds after some midnight. -/
def timeOfDay (n : Nat) : String :=
  twoDigits (n / 3600 % 24) ++ ":" ++ twoDigits (n / 60 % 60) ++ ":" ++ twoDigits (n % 60)

def clock : IO String := do
  let now ← Std.Time.Timestamp.now
  return timeOfDay now.toSecondsSinceUnixEpoch.val.toNat

def systemReason : IO.Error → String
  | .noFileOrDirectory _ code details | .permissionDenied _ code details
  | .inappropriateType _ code details | .resourceExhausted _ code details
  | .invalidArgument _ code details | .alreadyExists _ code details
  | .noSuchThing _ code details | .interrupted _ code details
  | .otherError code details | .resourceBusy code details | .hardwareFault code details
  | .unsupportedOperation code details | .illegalOperation code details =>
    details ++ " (os error " ++ toString code ++ ")"
  | e => toString e

def writeAll (h : IO.FS.Handle) (text : String) : IO Unit := do
  h.putStr text
  h.flush

def Job.carryOut (h : IO.FS.Handle) : Job → IO UInt32
  | .refuse message => do
    IO.eprint message
    return 1
  | .deliver log d => do
    let now ← clock
    IO.print (String.join (log.map (logLine now)))
    try
      writeAll h d.text
      return 0
    catch _ =>
      IO.eprint d.failure
      return 1
  | .broken log d message => do
    let now ← clock
    IO.print (String.join (log.map (logLine now)))
    try
      writeAll h d.text
      IO.eprint message
      return brokenCode.toUInt32
    catch _ =>
      IO.eprint (if d.whileMade then d.failure else message)
      return if d.whileMade then 1 else brokenCode.toUInt32

def Plan.carryOut : Plan → IO UInt32
  | .finish log code stdout stderr => do
    let now ← clock
    IO.print (String.join (log.map (logLine now)) ++ stdout)
    IO.eprint stderr
    return code.toUInt32
  | .work log none job => do
    let r := Plan.run (← clock) (fun _ => .absent) (.work log none job)
    IO.print r.stdout
    IO.eprint r.stderr
    return r.code.toUInt32
  | .work log (some path) job => do
    let now ← clock
    IO.print (String.join (log.map (logLine now)))
    match ← (IO.FS.Handle.mk path .write).toBaseIO with
    | .error e =>
      IO.eprint (report ("cannot create " ++ path) [systemReason e])
      return 1
    | .ok h => job.carryOut h

end TruthTables.CommandLine

def main (args : List String) : IO UInt32 := (TruthTables.CommandLine.plan args).carryOut
