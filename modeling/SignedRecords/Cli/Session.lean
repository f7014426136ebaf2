import SignedRecords.Cli.Arguments
import SignedRecords.Cli.Disk
import SignedRecords.Config.File
import SignedRecords.Dht.Error
import SignedRecords.Keys
import SignedRecords.Service.Lone
import SignedRecords.Store.Basic
import SignedRecords.Text.ByteCount
import SignedRecords.Text.LogLevel
import SignedRecords.Scheduler.Basic

/-!
# A run of the program

What the program does with its arguments: it reads the configuration, and writes the usual one
where there was none, opens the record store, and serves, publishes or looks for a record. A run
is a function of the disk and of what else surrounds it; its outcome is the disk afterwards, the
lines of its output and of its log, and how it ended.

The node of such a run has no peers that answer.
-/

namespace SignedRecords.Cli

/-- Why a run breaks down: a sum of times that cannot be told. -/
inductive Breakdown where
  /-- When an entry expires that is cached now. -/
  | expiry
  /-- How long to wait for an announcement. -/
  | wait
  /-- Until when to wait for it. -/
  | waitEnd
  deriving DecidableEq

/-- The wording of a sum that cannot be told. -/
def Breakdown.message : Breakdown → String
  | .expiry | .waitEnd => "overflow when adding duration to instant"
  | .wait => "overflow when adding durations"

/-- How a run that breaks down tells where it was. -/
structure Whereabouts where
  /-- The number of the main thread. -/
  thread : Nat
  /-- The place of the sum, as the build of the program names it. -/
  place : Breakdown → String
  /-- What is said last, of how to learn more. -/
  hint : Option String

/-- What surrounds a run. -/
structure Surroundings where
  /-- The current directory. -/
  directory : Place
  /-- Where the configuration is when no place is given. -/
  configPath : String
  /-- Peers to start from that the environment names. -/
  peers : Option String
  /-- The level of the log that the environment sets; it comes before the configured one. -/
  logLevel : Option LogLevel
  /-- Seconds since 1970. -/
  now : Int
  /-- The reading of the running clock, in milliseconds. -/
  uptime : Nat
  whereabouts : Whereabouts

/-! ## 1. How a run ends -/

/-- How a run ends. -/
inductive Ending where
  | done
  /-- The record that was looked for is nowhere. -/
  | notFound
  /-- Something failed; the wordings of it and of the causes behind it. -/
  | failed (message : String) (causes : List String)
  /-- The arguments make no sense. -/
  | misused
  /-- The run broke down. -/
  | crashed (why : Breakdown)
  deriving DecidableEq

namespace Ending

/-- The exit code. -/
def code : Ending → Nat
  | .done => 0
  | .notFound | .failed .. => 1
  | .misused => 2
  | .crashed _ => 101

/-- The ending after a path that cannot be used. -/
def ofFault (fault : PathFault) : Ending :=
  .failed s!"IO error: {fault.message}" [fault.message]

/-- The ending after a configuration that cannot be used. -/
def ofConfig (e : ConfigError) : Ending := .failed e.message e.causes

/-- The ending after a refusal of the service. -/
def ofService (e : ServiceError) : Ending := .failed e.message e.causes

/-- A cause behind `first`, each further line of it behind `next`. -/
def causeText (first next cause : String) : String :=
  first ++ ("\n" ++ next).intercalate (cause.splitOn "\n") ++ "\n"

/-- The causes behind a failure, one below the other; several are numbered. -/
def causesText : List String → String
  | [cause] => causeText "    " "    " cause
  | causes =>
    String.join (causes.zipIdx.map fun (cause, i) => causeText s!"    {i}: " "       " cause)

/-- What a run that broke down reports. -/
def crashText (w : Whereabouts) (why : Breakdown) : String :=
  s!"\nthread 'main' ({w.thread}) panicked at {w.place why}:\n{why.message}\n"
    ++ w.hint.elim "" (· ++ "\n")

/-- What is reported of an ending; nothing unless something failed or the run broke down. What a put
    in the background reports that breaks down is left out: it comes before the rest, after it or
    not at all, as the threads run. -/
def report (s : Surroundings) : Ending → String
  | .failed message [] => s!"Error: {message}\n"
  | .failed message causes => s!"Error: {message}\n\nCaused by:\n" ++ causesText causes
  | .crashed why => crashText s.whereabouts why
  | _ => ""

end Ending

/-- The outcome of a run. -/
structure Outcome where
  disk : Disk
  /-- What was said of trouble that did not end the run. -/
  notices : List String
  output : List String
  log : List String
  ending : Ending

/-- What is said of trouble, the report of the ending last. -/
def Outcome.complaints (o : Outcome) (s : Surroundings) : String :=
  String.join (o.notices.map (· ++ "\n")) ++ o.ending.report s

/-- A run that is prepared: the configuration with all that overrides it. -/
structure Session where
  disk : Disk
  notices : List String
  config : Config
  level : LogLevel
  surroundings : Surroundings

/-- A run whose record store is open. -/
structure OpenSession extends Session where
  /-- The place of the store. -/
  database : Place

namespace Session

/-! ## 2. Preparing -/

/-- The configuration after what overrides it. -/
def configured (c : Config) (s : Surroundings) (a : Arguments) : Config :=
  let c := match s.peers with
    | some text => c.withPeers text
    | none => c
  let c := if a.bootstrap.isEmpty then c
    else { c with dht := { c.dht with bootstrapPeers := a.bootstrap } }
  let c := match a.dataDir with
    | some dataDir => { c with storage := { dataDir } }
    | none => c
  match a.logLevel with
  | some logLevel => { c with logLevel }
  | none => c

/-- The path of the configuration. -/
def configPath (s : Surroundings) (a : Arguments) : String := a.config.getD s.configPath

/-- Reads the configuration, and writes the usual one where there is no file; answers the disk
    and what is to be said if that failed. -/
def loadConfig (disk : Disk) (directory : Place) (path : String) :
    Except Ending (Config × Disk × List String) :=
  match Path.read path with
  | .error fault => .error (.ofFault fault)
  | .ok place =>
    match disk.readFile directory place with
    | .error fault => .error (.ofFault fault)
    | .ok content =>
      match Config.load content, content with
      | .error e, _ => .error (.ofConfig e)
      | .ok config, some _ => .ok (config, disk, [])
      | .ok config, none =>
        match disk.saveFile directory place (Bytes.ofText config.save) with
        | (disk, none) => .ok (config, disk, [])
        | (disk, some fault) =>
          .ok (config, disk,
            [s!"Failed to save default config to {path}: IO error: {fault.message}"])

/-- Reads the configuration and sets the level of the log. -/
def prepare (disk : Disk) (s : Surroundings) (a : Arguments) : Except Outcome Session :=
  match loadConfig disk s.directory (configPath s a) with
  | .error ending => .error ⟨disk, [], [], [], ending⟩
  | .ok (stored, disk, notices) =>
    let config := configured stored s a
    match LogLevel.read? config.logLevel with
    | none =>
      .error ⟨disk, notices, [], [], .failed (LogLevel.unknownMessage config.logLevel) []⟩
    | some level => .ok ⟨disk, notices, config, s.logLevel.getD level, s⟩

/-- The lines that are shown of a log. -/
def shown (s : Session) (lines : List (LogLevel × String)) : List String :=
  lines.filterMap fun line => if s.level.shows line.1 then some line.2 else none

/-- What is logged first. -/
def greeting : List (LogLevel × String) := [(.info, s!"dht_relay {version}")]

/-- The outcome of a session. -/
def finish (s : Session) (disk : Disk) (output : List String)
    (lines : List (LogLevel × String)) (ending : Ending) : Outcome :=
  ⟨disk, s.notices, output, s.shown (greeting ++ lines), ending⟩

/-- The name of the record store in the directory of the data. -/
def databaseName : String := "records.db"

/-- Opens the record store, in a directory that is made if it is missing. -/
def openStore (s : Session) : Except Ending OpenSession :=
  let directory := s.surroundings.directory
  match Path.read s.config.storage.dataDir with
  | .error fault => .error (.ofFault fault)
  | .ok path =>
    let start := path.origin directory
    match s.disk.makeDirectories start path.steps with
    | .error fault => .error (.ofFault fault)
    | .ok disk =>
      match disk.follow start (path.steps ++ [databaseName]) with
      | .error fault => .error (.ofFault fault)
      | .ok database =>
        match disk.entry? database with
        | some (.file _) =>
          let reason := s!"IO error: {PathFault.notDirectory.message}"
          .error (.failed "failed to open record store" [s!"Database error: {reason}", reason])
        | _ => .ok ⟨{ s with disk := disk.writeStore database (disk.store database) }, database⟩

end Session

namespace OpenSession

/-- The store of the session. -/
def store (s : OpenSession) : RowStore := s.disk.store s.database

/-- The service of the session. -/
def service (s : OpenSession) : Service := .fresh s.config.serviceConfig (.rows s.store)

/-- The disk with the store of a service. -/
def saved (s : OpenSession) (service : Service) : Disk :=
  match service.store with
  | .rows rows => s.disk.writeStore s.database rows
  | .memory _ => s.disk

/-- What is logged once the store is open. -/
def opened (s : OpenSession) : List (LogLevel × String) :=
  [(.info, s!"Record store opened with {s.store.records.size} record(s)")]

/-- What is logged once the node has found no other. -/
def alone (s : OpenSession) : List (LogLevel × String) :=
  s.opened ++ [(.warn, "Routing table is empty, lookups will fall back to local storage")]

end OpenSession

/-! ## 3. Serving -/

/-- Why a program without privileges may not listen at an address of a host that has no IPv6
    address of its own: low ports are kept, and an address that names one host has to be one of
    the host's own. -/
def listenRefusal? (a : Address) : Option String :=
  let low (port : UInt16) : Bool := 0 < port && port < 1024
  let kept := "Permission denied (os error 13)"
  match a with
  | .v4 _ port => if low port then some kept else none
  | .v6 ip port _ _ =>
    let groups := Address.groups ip.toList
    let manyHosts := groups.all (· == 0) || (groups.head?.any (0xFF00 ≤ ·))
    let embedded := groups.take 6 = [0, 0, 0, 0, 0, 0xFFFF]
    if low port then some kept
    else if manyHosts || embedded then none
    else some "Cannot assign requested address (os error 99)"

namespace OpenSession

/-- What is logged when the node begins to serve at an address, or why it does not. -/
def serve (s : OpenSession) (listen : Address) : List (LogLevel × String) × Except Ending Unit :=
  match listenRefusal? listen with
  | some reason =>
    (s.opened, .error (.failed (DhtError.failed s!"bind {listen.text}: {reason}").message []))
  | none =>
    let service := s.config.serviceConfig
    match Trigger.ofCron service.cron with
    | .error e => (s.alone, .error (.ofService (.scheduler e)))
    | .ok _ =>
      (s.alone ++ [(.info, s!"Serving records, republishing on '" ++ service.cron
        ++ s!"' (cache limit {ByteCount.text service.cacheSize})")], .ok ())

/-- What is logged when the node is interrupted. -/
def shutDown (s : OpenSession) : List (LogLevel × String) :=
  let failed := s.store.failed.size
  (.info, "Shutting down...") ::
    (if 0 < failed then [(.warn, s!"{failed} record(s) in the failed-record ledger")] else [])

end OpenSession

namespace Session

/-- Where to listen: at the given address, or else at the configured one. -/
def listenAddress (s : Session) (listen : Option Address) : Except Ending Address :=
  match listen, s.config.listenAddress with
  | some address, _ => .ok address
  | none, .ok address => .ok address
  | none, .error e => .error (.ofConfig e)

/-- Begins to serve: answers the session and what is logged, or how the run ends. -/
def beginServing (s : Session) (listen : Option Address) :
    Except Outcome (OpenSession × List (LogLevel × String)) :=
  match s.listenAddress listen, s.openStore with
  | .error ending, _ => .error (s.finish s.disk [] [] ending)
  | .ok _, .error ending => .error (s.finish s.disk [] [] ending)
  | .ok address, .ok o =>
    match o.serve address with
    | (lines, .error ending) => .error (s.finish o.disk [] lines ending)
    | (lines, .ok ()) => .ok (o, lines)

/-- Serves until the first interruption. -/
def run (s : Session) (listen : Option Address) : Outcome :=
  match s.beginServing listen with
  | .error outcome => outcome
  | .ok (o, lines) => s.finish (o.saved o.service) [] (lines ++ o.shutDown) .done

end Session

/-! ## 4. Publishing -/

/-- What is logged of a record that no node has taken. -/
def unannounced (id : String) : String :=
  s!"Record {id} is stored locally but was not announced; it will be republished"

/-- What is logged of a record whose put has ended. -/
def announcement (id : String) : PutEnd → LogLevel × String
  | .acknowledged => (.info, s!"Record {id} announced to the DHT")
  | _ => (.warn, unannounced id)

/-- Until when to wait for an announcement, a second longer than the put may take; or the sum that
    cannot be told. -/
def announcementEnd (now timeout : Nat) : Except Breakdown Nat :=
  match waitBoth? timeout 1000 with
  | none => .error .wait
  | some wait =>
    match deadline? now wait with
    | none => .error .waitEnd
    | some deadline => .ok deadline

/-- Publishes a record, and waits for the announcement. A call of the service that gives no reply
    broke down at its cache. -/
def OpenSession.publish (s : OpenSession) (record : Record) : Outcome :=
  let now := s.surroundings.uptime
  let timeout := s.config.serviceConfig.putTimeout
  let (service, reply) := s.service.publishAlone now record.id record
  let disk := s.saved service
  match reply with
  | some .published =>
    match announcementEnd now timeout with
    | .ok _ =>
      let said := announcement record.id (putAlone now timeout)
      s.finish disk [record.id] (s.alone ++ [said]) .done
    | .error why => s.finish disk [record.id] s.alone (.crashed why)
  | some (.failed e) => s.finish disk [] s.alone (.ofService e)
  | _ => s.finish disk [] s.alone (.crashed .expiry)

/-- Signs and publishes a value. -/
def Session.publish (s : Session) (seed value : String) (sequence : Option Sequence) : Outcome :=
  match KeyPair.ofHexSeed seed with
  | .error e => s.finish s.disk [] [] (.failed e.message [])
  | .ok pair =>
    let sequence := sequence.getD (Int64.ofInt s.surroundings.now)
    match Record.sign pair (Bytes.ofText value) sequence with
    | .error e => s.finish s.disk [] [] (.failed e.message [])
    | .ok record =>
      match s.openStore with
      | .error ending => s.finish s.disk [] [] ending
      | .ok o => o.publish record

/-! ## 5. Looking for a record -/

/-- The value of a response, as a text if it is one. -/
def valueLine (value : Bytes) : String :=
  match Utf8.decode value with
  | .ok text => "value: " ++ text
  | .error _ => "value (hex): " ++ Hex.encode value

/-- What is shown of a response. -/
def responseLines (r : Response) : List String :=
  [s!"seq: {r.sequence.toInt}", valueLine r.value,
   s!"signature: {Hex.encode r.signature.toList}"]

/-- Looks for a record. -/
def OpenSession.get (s : OpenSession) (id : String) : Outcome :=
  let (service, reply) := s.service.getAlone s.surroundings.uptime id
  let disk := s.saved service
  match reply with
  | some (.found response) => s.finish disk (responseLines response) s.alone .done
  | some .notFound => s.finish disk [s!"{id} not found"] s.alone .notFound
  | some (.failed e) => s.finish disk [] s.alone (.ofService e)
  | _ => s.finish disk [] s.alone (.crashed .expiry)

/-- Opens the store and looks for a record. -/
def Session.get (s : Session) (id : String) : Outcome :=
  match s.openStore with
  | .error ending => s.finish s.disk [] [] ending
  | .ok o => o.get id

/-! ## 6. The program -/

/-- How the program is used. -/
def usage : List String :=
  ["Usage: dht_relay [OPTIONS] <COMMAND>",
   "",
   "Commands:",
   "  run [--listen <ADDRESS>]",
   "  publish --seed <SEED> [--seq <SEQ>] <VALUE>",
   "  get <ID>",
   "",
   "Options:",
   "  -c, --config <CONFIG>",
   "      --log-level <LOG_LEVEL>",
   "  -b, --bootstrap <BOOTSTRAP>",
   "      --data-dir <DATA_DIR>",
   "  -h, --help",
   "  -V, --version"]

/-- Where the configuration is when nobody says it: in the directory for configurations that the
    environment names, or in the usual place under the home directory. -/
def usualConfigPath (configHome home : Option String) : String :=
  let directory :=
    match configHome.filter (·.startsWith "/"), home with
    | some directory, _ => directory
    | none, some home => home ++ "/.config"
    | none, none => "."
  directory ++ "/dht_relay/config.json"

/-- Runs the program. -/
def run (disk : Disk) (s : Surroundings) (words : List String) : Outcome :=
  match readArguments words with
  | .showsVersion => ⟨disk, [], [s!"dht_relay {version}"], [], .done⟩
  | .showsHelp => ⟨disk, [], usage, [], .done⟩
  | .misused => ⟨disk, [], [], [], .misused⟩
  | .runs arguments =>
    match Session.prepare disk s arguments with
    | .error outcome => outcome
    | .ok session =>
      match arguments.command with
      | .run listen => session.run listen
      | .publish seed value sequence => session.publish seed value sequence
      | .get id => session.get id

end SignedRecords.Cli
