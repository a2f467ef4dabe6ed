import TopicView.Json.Format
import TopicView.Read.Error
import TopicView.Text.Blank

/-!
# Settings

The settings of the read engine and of the connection to a cluster, and what the environment
overrides in them.
-/

namespace TopicView

structure ReaderSettings where
  /-- The number of records that may wait for the caller. -/
  channelCapacity : UInt64 := 256
  deriving DecidableEq, Repr

namespace ReaderSettings

def validate (s : ReaderSettings) : Except SettingFault Unit :=
  if s.channelCapacity = 0 then .error .noCapacity else .ok ()

def toJson (s : ReaderSettings) : Json :=
  .obj [("channel_capacity", .int s.channelCapacity.toNat)]

def format : Json.Format ReaderSettings :=
  .record "ReaderConfig" {} [.may "channel_capacity" .size fun n _ ↦ ⟨n⟩]

end ReaderSettings

structure ClusterSettings where
  bootstrapServers : String := "localhost:9092"
  clientId : String := "kview"
  fetchTimeoutMs : UInt64 := 10000
  properties : Dictionary String := .empty
  deriving DecidableEq, Repr

namespace ClusterSettings

def validate (s : ClusterSettings) : Except SettingFault Unit :=
  if Text.trim s.bootstrapServers = "" then .error .noServers else .ok ()

/-- The timeout in seconds and nanoseconds. -/
def fetchTimeout (s : ClusterSettings) : UInt64 × UInt64 :=
  (s.fetchTimeoutMs / 1000, s.fetchTimeoutMs % 1000 * 1000000)

def toJson (s : ClusterSettings) : Json :=
  .obj [("bootstrap_servers", .str s.bootstrapServers), ("client_id", .str s.clientId),
    ("fetch_timeout_ms", .int s.fetchTimeoutMs.toNat),
    ("properties", .obj (s.properties.toList.map fun (key, value) ↦ (key, .str value)))]

def format : Json.Format ClusterSettings :=
  .record "KafkaConfig" {}
    [.may "bootstrap_servers" .string fun bootstrapServers s ↦ { s with bootstrapServers },
     .may "client_id" .string fun clientId s ↦ { s with clientId },
     .may "fetch_timeout_ms" .uint64 fun fetchTimeoutMs s ↦ { s with fetchTimeoutMs },
     .may "properties" (.dictionary .string) fun properties s ↦ { s with properties }]

end ClusterSettings

/-! ## All settings -/

structure Settings where
  reader : ReaderSettings := {}
  cluster : ClusterSettings := {}
  deriving DecidableEq, Repr

namespace Settings

def toJson (s : Settings) : Json :=
  .obj [("reader", s.reader.toJson), ("kafka", s.cluster.toJson)]

def format : Json.Format Settings :=
  .record "KviewConfig" {}
    [.may "reader" ReaderSettings.format fun reader s ↦ { s with reader },
     .may "kafka" ClusterSettings.format fun cluster s ↦ { s with cluster }]

/-! ## Environment -/

def serversVariable : String := "KVIEW_BOOTSTRAP_SERVERS"

def capacityVariable : String := "KVIEW_CHANNEL_CAPACITY"

/-- The value of the capacity variable, which is no number of 64 bits. -/
structure CapacityError where
  value : String
  cause : Numeral.Fault
  deriving DecidableEq, Repr

/-- The error and its cause. -/
def CapacityError.chain (e : CapacityError) : List String :=
  [s!"Invalid {capacityVariable}: {e.value}", e.cause.message]

/-- Servers are taken over as they are; they stay so also where the capacity is refused. -/
def applyEnvironment (s : Settings) (lookup : String → Option String) :
    Settings × Option CapacityError :=
  let s := match lookup serversVariable with
    | some bootstrapServers => { s with cluster := { s.cluster with bootstrapServers } }
    | none => s
  match lookup capacityVariable with
  | none => (s, none)
  | some value =>
    match Numeral.unsigned UInt64.size (Text.trimChars value.toList) with
    | .ok n => ({ s with reader := ⟨UInt64.ofNat n⟩ }, none)
    | .error cause => (s, some ⟨value, cause⟩)

end Settings
end TopicView
