import DecryptorNode.Config.Reader
import DecryptorNode.Internet.SocketAddress

/-! Settings of the log and of the metrics that the node serves. -/
namespace DecryptorNode.Config

open Internet (SocketAddress)

inductive LogFormat where
  | pretty : LogFormat
  | json : LogFormat
  deriving DecidableEq, Repr

def LogFormat.choices : List (String × LogFormat) := [("pretty", .pretty), ("json", .json)]

def LogFormat.label : LogFormat → String
  | .pretty => "pretty"
  | .json => "json"

/-- The level is a list of directives. -/
structure LogSettings where
  level : String
  format : LogFormat
  deriving DecidableEq, Repr

structure MetricsSettings where
  enabled : Bool
  bindAddress : SocketAddress
  deriving DecidableEq, Repr

namespace LogSettings

def fields : List (Reader.Field LogSettings) :=
  [.required "level" Reader.text fun v s => { s with level := v },
    .required "format" (Reader.choice LogFormat.choices) fun v s => { s with format := v }]

def read : Reader LogSettings := Reader.record ⟨"", .pretty⟩ fields

def toValue (s : LogSettings) : Value :=
  .table (Entries.ofList [("level", .text s.level), ("format", .text s.format.label)])

end LogSettings

namespace MetricsSettings

/-- Not served; the address stands for all those of the machine. -/
def blank : MetricsSettings := ⟨false, .v4 ⟨0, 0, 0, 0⟩ 0⟩

def fields : List (Reader.Field MetricsSettings) :=
  [.required "enabled" Reader.flag fun v s => { s with enabled := v },
    .required "bind_address" (Reader.textAs SocketAddress.parse?) fun v s =>
      { s with bindAddress := v }]

def read : Reader MetricsSettings := Reader.record blank fields

/-- The metrics are the only telemetry, in a table of their own. -/
def readTelemetry : Reader MetricsSettings :=
  Reader.record blank [.required "metrics" read fun v _ => v]

def toValue (s : MetricsSettings) : Value :=
  .table (Entries.ofList [("enabled", .flag s.enabled), ("bind_address", .text s.bindAddress.text)])

end MetricsSettings
end DecryptorNode.Config
