import DecryptorNode.Config.Settings

/-! The environments that a node can run in, and the settings that each starts from. -/
namespace DecryptorNode.Config

inductive Environment where
  | development : Environment
  | testnet : Environment
  | mainnet : Environment
  deriving DecidableEq, Repr

namespace Environment

def label : Environment → String
  | .development => "development"
  | .testnet => "testnet"
  | .mainnet => "mainnet"

def all : List Environment := [.development, .testnet, .mainnet]

def ofLabel? (text : String) : Option Environment := all.find? fun e => e.label == text

def developmentSettings : Settings where
  environment := "development"
  instanceId := 0
  log := ⟨"rust_shutter_node=debug,shutter_blockchain=debug,shutter_repository=info", .pretty⟩
  metrics := ⟨false, .v4 ⟨0, 0, 0, 0⟩ 9464⟩
  repository := ⟨.sqlite, "", none, "shutter-node.sqlite", "", 0, 1, 1⟩
  blockchain := {
    rpcEndpoints := ["http://localhost:8545"]
    keypersConfigList := "0x5FbDB2315678afecb367f032d93F642f64180aa3"
    decryptorsConfigList := "0xe7f1725E7734CE288F8367e1Bb143E90bb3F0512"
    keypers := "0x9fE46736679d2D9a65F0992F2272dE9f3c7fa6e0"
    decryptors := "0xCf7Ed3AccA5a467e9e704C703E8D87F634fB0Fc9"
    publicKeyRegistry := "0xDc64a140Aa3E981100a9becA4E685f962f0cF6C9"
    signatureRegistry := "0x5FC8d32690cc91D4c39d9d3abcBD16989F875707"
    finalityOffset := 0
    pollInterval := 1000
    maxBlocksPerFetch := 100
    eventBuffer := 16
    callTimeout := 5000 }

def publicSettings (environment : Environment) (format : LogFormat) (metrics : Bool) :
    Settings where
  environment := environment.label
  instanceId := 0
  log := ⟨"rust_shutter_node=info,shutter_blockchain=info", format⟩
  metrics := ⟨metrics, .v4 ⟨0, 0, 0, 0⟩ 9464⟩
  repository := ⟨.postgres, "shutter", none, "shutter", "localhost", 5432, 16, 2⟩
  blockchain := {
    BlockchainSettings.blank with
    finalityOffset := 3
    pollInterval := 5000
    maxBlocksPerFetch := 1000
    eventBuffer := 64
    callTimeout := 15000 }

def settings : Environment → Settings
  | .development => developmentSettings
  | .testnet => publicSettings .testnet .pretty false
  | .mainnet => publicSettings .mainnet .json true

end Environment
end DecryptorNode.Config
