import DecryptorNode.Config.Reader

/-! Settings of the database, and what a connection needs of them. -/
namespace DecryptorNode.Config

inductive Driver where
  | postgres : Driver
  | mysql : Driver
  | sqlite : Driver
  deriving DecidableEq, Repr

def Driver.choices : List (String × Driver) :=
  [("postgres", .postgres), ("mysql", .mysql), ("sqlite", .sqlite)]

def Driver.label : Driver → String
  | .postgres => "postgres"
  | .mysql => "mysql"
  | .sqlite => "sqlite"

/-- The settings as they are written. -/
structure RepositorySettings where
  driver : Driver
  user : String
  password : Option String
  database : String
  host : String
  tcpPort : Nat
  maxConnections : Nat
  minConnections : Nat
  deriving DecidableEq, Repr

/-- What a connection needs. -/
structure Repository where
  driver : Driver
  user : String
  password : String
  database : String
  host : String
  tcpPort : Nat
  maxConnections : Nat
  minConnections : Nat
  deriving DecidableEq, Repr

inductive RepositoryFault where
  | missingPassword : RepositoryFault
  | poolBounds : (min max : Nat) → RepositoryFault
  deriving DecidableEq, Repr

namespace RepositoryFault

def reason : RepositoryFault → String
  | .missingPassword => "SHUTTER_REPOSITORY__PASSWORD env var or password config required"
  | .poolBounds min max => "connection pool bounds are inconsistent (min " ++ toString min ++
      ", max " ++ toString max ++ ")"

def message (f : RepositoryFault) : String :=
  match f with
  | .missingPassword => "Missing required secret: " ++ f.reason
  | .poolBounds _ _ => "Invalid configuration: " ++ f.reason

end RepositoryFault

namespace RepositorySettings

def blank : RepositorySettings := ⟨.sqlite, "", none, "", "", 0, 0, 0⟩

def fields : List (Reader.Field RepositorySettings) :=
  [.required "driver" (Reader.choice Driver.choices) fun v r => { r with driver := v },
    .required "user" Reader.text fun v r => { r with user := v },
    .defaulting "password" (Reader.optional Reader.text) none fun v r => { r with password := v },
    .required "database" Reader.text fun v r => { r with database := v },
    .required "host" Reader.text fun v r => { r with host := v },
    .required "port" (Reader.natural (2 ^ 16 - 1)) fun v r => { r with tcpPort := v },
    .required "max_connections" (Reader.natural (2 ^ 32 - 1)) fun v r =>
      { r with maxConnections := v },
    .required "min_connections" (Reader.natural (2 ^ 32 - 1)) fun v r =>
      { r with minConnections := v }]

def read : Reader RepositorySettings := Reader.record blank fields

def toValue (s : RepositorySettings) : Value :=
  .table (Entries.ofList [("driver", .text s.driver.label), ("user", .text s.user),
    ("password", s.password.elim .null .text), ("database", .text s.database),
    ("host", .text s.host), ("port", .natural s.tcpPort),
    ("max_connections", .natural s.maxConnections), ("min_connections", .natural s.minConnections)])

/-- The password to use: only a database in a file does without. -/
def passwordToUse (s : RepositorySettings) : Except RepositoryFault String :=
  match s.password with
  | some password => .ok password
  | none => if s.driver = .sqlite then .ok "" else .error .missingPassword

/-- At least one connection, and no more kept open than allowed. -/
def resolve (s : RepositorySettings) : Except RepositoryFault Repository := do
  let password ← s.passwordToUse
  if s.maxConnections = 0 ∨ s.maxConnections < s.minConnections then
    .error (.poolBounds s.minConnections s.maxConnections)
  else
    return ⟨s.driver, s.user, password, s.database, s.host, s.tcpPort, s.maxConnections,
      s.minConnections⟩

end RepositorySettings

namespace Repository

def memory : String := ":memory:"

def inMemory : Repository := ⟨.sqlite, "", "", memory, "", 0, 1, 1⟩

def toSettings (r : Repository) : RepositorySettings :=
  ⟨r.driver, r.user, some r.password, r.database, r.host, r.tcpPort, r.maxConnections,
    r.minConnections⟩

def connectionString (r : Repository) : String :=
  match r.driver with
  | .sqlite =>
    if r.database = memory then "sqlite::memory:" else "sqlite://" ++ r.database ++ "?mode=rwc"
  | server =>
    server.label ++ "://" ++ r.user ++ ":" ++ r.password ++ "@" ++ r.host ++ ":" ++
      toString r.tcpPort ++ "/" ++ r.database

end Repository
end DecryptorNode.Config
