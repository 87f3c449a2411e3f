import DecryptorNode.Config.Blockchain
import DecryptorNode.Config.Repository

/-! Why a node has no configuration. -/
namespace DecryptorNode.Config

inductive ConfigError where
  | load : LoadError → ConfigError
  | missingFile : String → ConfigError
  | missingEnvironment : ConfigError
  | unknownEnvironment : String → ConfigError
  | otherEnvironment : (written selected : String) → ConfigError
  | repository : RepositoryFault → ConfigError
  | blockchain : BlockchainFault → ConfigError
  deriving DecidableEq, Repr

/-- The message; what exactly cannot be loaded is not repeated. -/
def ConfigError.message : ConfigError → String
  | .load _ => "Configuration loading failed"
  | .missingFile path => "Missing required config file: " ++ path
  | .missingEnvironment => "Missing required environment setting: " ++
      "set environment = \"development|testnet|mainnet\" in your config"
  | .unknownEnvironment name => "Unknown environment: " ++ name
  | .otherEnvironment written selected => "Unknown environment: config environment '" ++ written ++
      "' does not match selected '" ++ selected ++ "'"
  | .repository .missingPassword => RepositoryFault.missingPassword.message
  | .repository fault => "Invalid configuration: repository: " ++ fault.reason
  | .blockchain fault => "Invalid configuration: blockchain: " ++ fault.message

end DecryptorNode.Config
