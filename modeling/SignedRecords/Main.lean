import SignedRecords.Cli.Session
import SignedRecords.Store.Dump
import Std.Time.Format

/-!
# The program

Reads what a run needs from the real disk and the real clocks, runs it, and writes back what it
changed. Everything that is decided is decided in `SignedRecords.Cli`.
-/

namespace SignedRecords.Cli

/-- The text of a place. -/
def placeText (place : Place) : String := "/" ++ "/".intercalate place

/-- The content of a file, if it can be read. -/
def readFile? (place : Place) : IO (Option Bytes) := do
  try
    return some (← IO.FS.readBinFile (placeText place)).data.toList
  catch _ => return none

/-- Writes a file, with the directories above it. -/
def writeFile (place : Place) (content : Bytes) : IO Unit := do
  IO.FS.createDirAll (placeText place.dropLast)
  IO.FS.writeBinFile (placeText place) ⟨content.toArray⟩

/-- What is at a place: a path that goes on from there leads on from directories alone. -/
def look (place : Place) : IO (Option Entry) := do
  try
    let _ ← IO.FS.realPath (placeText place ++ "/.")
    return some .directory
  catch _ => return (← readFile? place).map .file

/-- The definition that takes a sum. -/
def sumPlace : Breakdown → String
  | .expiry => "SignedRecords.TtlCache.canWrite"
  | .wait | .waitEnd => "SignedRecords.Cli.announcementEnd"

/-- What surrounds this run. -/
def surroundings : IO Surroundings := do
  return {
    directory := ((← IO.currentDir).toString.splitOn "/").filter (· != "")
    configPath := usualConfigPath (← IO.getEnv "XDG_CONFIG_HOME") (← IO.getEnv "HOME")
    peers := ← IO.getEnv "BOOTSTRAP_PEERS"
    logLevel := none
    now := (← Std.Time.Timestamp.now).toSecondsSinceUnixEpoch.val
    uptime := ← IO.monoMsNow
    whereabouts := ⟨(← IO.getTID).toNat, sumPlace, none⟩ }

/-- Notes what is on the way of a path, and answers where it leads. -/
def survey (disk : Disk) (directory : Place) (text : String) : IO (Disk × Option Place) := do
  match Path.read text with
  | .error _ => return (disk, none)
  | .ok path =>
    let mut disk := disk
    for place in path.places directory do
      if let some entry ← look place then
        disk := disk.enter place entry
    return (disk, (path.places directory).getLast?)

/-- Reads from the disk what a run with these arguments needs. -/
def gather (s : Surroundings) (a : Arguments) : IO Disk := do
  let (disk, _) ← survey ⟨[], []⟩ s.directory (Session.configPath s a)
  match Session.prepare disk s a with
  | .error _ => return disk
  | .ok session =>
    match ← survey disk s.directory session.config.storage.dataDir with
    | (disk, none) => return disk
    | (disk, some place) =>
      let database := place ++ [Session.databaseName]
      match (← readFile? database).map Utf8.decode with
      | some (.ok text) => return disk.writeStore database (.restore text)
      | _ => return disk

/-- Writes what a run has changed. -/
def writeBack (before after : Disk) : IO Unit := do
  for (place, entry) in after.entries do
    if (before.entry? place).isNone then
      match entry with
      | .directory => IO.FS.createDirAll (placeText place)
      | .file content => writeFile place content
  for (place, store) in after.stores do
    writeFile place (Bytes.ofText store.dump)

/-- Waits until the input ends. -/
def awaitEnd : IO Unit := do
  let input ← IO.getStdin
  repeat
    if (← input.getLine).isEmpty then break

/-- Shows lines. -/
def showLines (stream : IO.FS.Stream) (lines : List String) : IO Unit := do
  for line in lines do
    stream.putStrLn line
  stream.flush

end SignedRecords.Cli

open SignedRecords SignedRecords.Cli in
/-- Runs the program on the real disk; serving goes on until the input ends. -/
def main (words : List String) : IO UInt32 := do
  let s ← surroundings
  let mut before : Disk := ⟨[], []⟩
  let mut shown := 0
  if let .runs arguments := readArguments words then
    before ← gather s arguments
    if let .run listen := arguments.command then
      if let .ok session := Session.prepare before s arguments then
        if let .ok (_, lines) := session.beginServing listen then
          let lines := session.notices ++ session.shown (Session.greeting ++ lines)
          showLines (← IO.getStderr) lines
          shown := lines.length
          awaitEnd
  let outcome := Cli.run before s words
  writeBack before outcome.disk
  showLines (← IO.getStdout) outcome.output
  showLines (← IO.getStderr) ((outcome.notices ++ outcome.log).drop shown)
  (← IO.getStderr).putStr (outcome.ending.report s)
  return UInt32.ofNat outcome.ending.code
