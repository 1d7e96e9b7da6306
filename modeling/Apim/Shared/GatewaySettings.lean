import Mathlib.Order.Lattice
import Mathlib.Data.Int.Order.Basic

/-!
# Gateway settings

The settings a gateway may be given and the one resolution of their overrides
(`shared/gateway-settings.ts`). An override is a sparse row of one of three layers, and the layer
that names the gateway wins over the environment's, which wins over the fleet's
(`resolveGatewaySettingSources`, lines 309-340). The labels and purposes the settings screen shows
are left out.
-/

namespace Apim.GatewaySettings

/-- A stored value. A number that is not an integer keeps no more than that it is one: every
reader replaces it by the default (`clampSetting`). -/
inductive SettingValue where
  | int (n : Int)
  | fraction
  | flag (b : Bool)
  deriving DecidableEq, Repr

inductive SettingKey where
  | maxConcurrentRequests
  | maxConcurrentUpgrades
  | maxBodyBytes
  | blockingBufferBudgetBytes
  | validatePoolSize
  | validateQueueDepth
  | responseCacheMaxEntries
  | responseCacheMaxBytes
  | artifactCacheMaxBytes
  | jwksMinRefetchSec
  | telemetry
  | telemetryMaxSeries
  | telemetryMaxWindowsPerReport
  | accessLog
  | accessLogMaxBytes
  | accessLogKeep
  | serverTiming
  deriving DecidableEq, Repr

/-- A row of `GATEWAY_SETTING_DEFS`: a flag with its default, or a whole number with its bounds. -/
inductive SettingDef where
  | flag (default : Bool)
  | number (default min max : Int)
  deriving DecidableEq, Repr

def MIB : Int := 1024 * 1024

/-- `GATEWAY_SETTING_DEFS` (`shared/gateway-settings.ts:94-281`). -/
def settingDef : SettingKey → SettingDef
  | .maxConcurrentRequests => .number 2048 1 1000000
  | .maxConcurrentUpgrades => .number 1024 1 1000000
  | .maxBodyBytes => .number (8 * MIB) 1024 (1024 * MIB)
  | .blockingBufferBudgetBytes => .number (256 * MIB) MIB (8192 * MIB)
  | .validatePoolSize => .number 4 1 256
  | .validateQueueDepth => .number 256 1 100000
  | .responseCacheMaxEntries => .number 10000 0 10000000
  | .responseCacheMaxBytes => .number (64 * MIB) 0 (8192 * MIB)
  | .artifactCacheMaxBytes => .number (512 * MIB) MIB (8192 * MIB)
  | .jwksMinRefetchSec => .number 60 1 86400
  | .telemetry => .flag true
  | .telemetryMaxSeries => .number 2000 1 1000000
  | .telemetryMaxWindowsPerReport => .number 15 1 1440
  | .accessLog => .flag true
  | .accessLogMaxBytes => .number (128 * MIB) MIB (8192 * MIB)
  | .accessLogKeep => .number 5 0 1000
  | .serverTiming => .flag false

def SettingDef.defaultValue : SettingDef → SettingValue
  | .flag default => .flag default
  | .number default _ _ => .int default

inductive SettingScope where
  | fleet
  | environment (name : String)
  | gateway (targetId : Nat)
  deriving DecidableEq, Repr

structure SettingOverride where
  scope : SettingScope
  key : SettingKey
  value : SettingValue
  deriving DecidableEq, Repr

/-- Which gateway is asking; `targetId` is `none` for a build that names no gateway. -/
structure SettingSubject where
  environment : String
  targetId : Option Nat
  deriving DecidableEq, Repr

/-- `clampSetting` (`shared/gateway-settings.ts:352-357`). -/
def clampSetting (key : SettingKey) (value : SettingValue) : SettingValue :=
  match settingDef key, value with
  | .flag _, .flag b => .flag b
  | .flag default, _ => .flag default
  | .number _ lo hi, .int n => .int (min (max n lo) hi)
  | .number default _ _, _ => .int default

/-- The layers that concern a subject, most specific last (`SETTING_SCOPES`, `scopeIdFor`). -/
def scopesFor (subject : SettingSubject) : List SettingScope :=
  [.fleet, .environment subject.environment] ++ subject.targetId.toList.map .gateway

def layerValue (overrides : List SettingOverride) (scope : SettingScope) (key : SettingKey) :
    Option SettingValue :=
  (overrides.reverse.find? fun o => decide (o.scope = scope ∧ o.key = key)).map fun o =>
    clampSetting key o.value

/-- `resolveGatewaySettings` (`shared/gateway-settings.ts:342-349`), as the value of each key. -/
def resolveGatewaySettings (overrides : List SettingOverride) (subject : SettingSubject)
    (key : SettingKey) : SettingValue :=
  (scopesFor subject).foldl (fun value scope => (layerValue overrides scope key).getD value)
    (settingDef key).defaultValue

def settingKeys : List SettingKey :=
  [.maxConcurrentRequests, .maxConcurrentUpgrades, .maxBodyBytes, .blockingBufferBudgetBytes,
    .validatePoolSize, .validateQueueDepth, .responseCacheMaxEntries, .responseCacheMaxBytes,
    .artifactCacheMaxBytes, .jwksMinRefetchSec, .telemetry, .telemetryMaxSeries,
    .telemetryMaxWindowsPerReport, .accessLog, .accessLogMaxBytes, .accessLogKeep, .serverTiming]

def settingsBlock (overrides : List SettingOverride) (subject : SettingSubject) :
    List (SettingKey × SettingValue) :=
  settingKeys.map fun key => (key, resolveGatewaySettings overrides subject key)

end Apim.GatewaySettings
