import ChangeRelay.Config.Configuration
import ChangeRelay.Yaml.Resolve

/-!
# Configuration files

Reading a configuration out of a YAML document. Sections and fields that are left out have their
defaults, and fields of other names are ignored. Source and destination say by their field `type`
which one they are; their scalars are taken for what they mean, so that a number is no text there.
-/

namespace ChangeRelay.Config

open Yaml (Node Meaning)
open Yaml.Node (asFields? asItems? asText? asBool? asDouble? asWordBelow? asOptionalText?
  required? optional?)

def readConsumer (n : Node) : Option Consumer := do
  let fs ← asFields? ["heartbeat_timeout", "max_batch_events", "batch_linger",
    "rate_limit_enabled", "rate_limit_per_sec", "rate_limit_burst"] n
  let standard : Consumer := {}
  return {
    heartbeatTimeout := ← optional? fs "heartbeat_timeout" standard.heartbeatTimeout asText?
    maxBatchEvents := ← optional? fs "max_batch_events" standard.maxBatchEvents
      (asWordBelow? wordLimit)
    batchLinger := ← optional? fs "batch_linger" standard.batchLinger asText?
    rateLimitEnabled := ← optional? fs "rate_limit_enabled" standard.rateLimitEnabled asBool?
    rateLimitPerSec := ← optional? fs "rate_limit_per_sec" standard.rateLimitPerSec
      (asWordBelow? halfWordLimit)
    rateLimitBurst := ← optional? fs "rate_limit_burst" standard.rateLimitBurst
      (asWordBelow? halfWordLimit) }

def readBackoff (n : Node) : Option Backoff := do
  let fs ← asFields? ["initial_delay", "max_delay", "backoff_factor", "jitter_factor",
    "connection_timeout"] n
  let standard : Backoff := {}
  return {
    initialDelay := ← optional? fs "initial_delay" standard.initialDelay asText?
    maxDelay := ← optional? fs "max_delay" standard.maxDelay asText?
    factor := ← optional? fs "backoff_factor" standard.factor asDouble?
    jitter := ← optional? fs "jitter_factor" standard.jitter asDouble?
    connectionTimeout := ← optional? fs "connection_timeout" standard.connectionTimeout asText? }

def readBreaker (n : Node) : Option Breaker := do
  let fs ← asFields? ["failure_threshold", "success_threshold", "recovery_timeout"] n
  let standard : Breaker := {}
  return {
    failureThreshold := ← optional? fs "failure_threshold" standard.failureThreshold
      (asWordBelow? halfWordLimit)
    successThreshold := ← optional? fs "success_threshold" standard.successThreshold
      (asWordBelow? halfWordLimit)
    recoveryTimeout := ← optional? fs "recovery_timeout" standard.recoveryTimeout asText? }

def readSettings (n : Node) : Option Settings := do
  let fs ← asFields? ["checkpoint_bucket", "consumer", "backoff", "circuit",
    "health_log_interval", "drain_timeout"] n
  let standard : Settings := {}
  return {
    checkpoints := ← optional? fs "checkpoint_bucket" standard.checkpoints asText?
    consumer := ← optional? fs "consumer" standard.consumer readConsumer
    backoff := ← optional? fs "backoff" standard.backoff readBackoff
    breaker := ← optional? fs "circuit" standard.breaker readBreaker
    healthLogInterval := ← optional? fs "health_log_interval" standard.healthLogInterval asText?
    drainTimeout := ← optional? fs "drain_timeout" standard.drainTimeout asText? }

/-! ## Source and destination -/

mutual

/-- Whether every integer of a node fits 64 bits; elsewhere than in a text it could not be read. -/
def isReadable : Node → Bool
  | .scalar plain text =>
    match Yaml.meaning plain text with
    | .huge => false
    | _ => true
  | .sequence items => areReadable items
  | .mapping pairs => pairsReadable pairs

def areReadable : List Node → Bool
  | [] => true
  | n :: rest => isReadable n && areReadable rest

def pairsReadable : List (Node × Node) → Bool
  | [] => true
  | (k, v) :: rest => isReadable k && isReadable v && pairsReadable rest

end

/-- A scalar that means a text. -/
def readText : Node → Option String
  | .scalar plain text =>
    match Yaml.meaning plain text with
    | .text s => some s
    | _ => none
  | _ => none

/-- A scalar that means an unsigned word. -/
def readSize : Node → Option Nat
  | .scalar plain text =>
    match Yaml.meaning plain text with
    | .int n => if 0 ≤ n then some n.toNat else none
    | _ => none
  | _ => none

/-- One of several alternatives: the word that says which, and its fields by position or by
name. -/
inductive Tagged where
  | fields (tag : String) (fields : List (String × Node))
  | items (tag : String) (items : List Node)

/-- The alternative that a node gives: as a mapping with a field `type`, or as a list that begins
with the word. -/
def readTagged (n : Node) : Option Tagged :=
  if !isReadable n then none else
  match n with
  | .mapping pairs => do
    let named := pairs.filterMap fun (p : Node × Node) => (readText p.1).map fun k => (k, p.2)
    match named.filter fun p => p.1 = "type" with
    | [(_, tag)] => return .fields (← asText? tag) (named.filter fun p => p.1 ≠ "type")
    | _ => none
  | .sequence (tag :: items) => do return .items (← asText? tag) items
  | _ => none

/-- The fields of an alternative, in the order of `names`, each if it is given. No field may be
given twice, nor more of them than there are. -/
def Tagged.values? (names : List String) : Tagged → Option (List (Option Node))
  | .fields _ fs =>
    if names.all fun k => fs.countP (fun p => p.1 = k) ≤ 1 then
      some (names.map fun k => fs.lookup k)
    else none
  | .items _ given =>
    if given.length ≤ names.length then
      some (given.map some ++ List.replicate (names.length - given.length) none)
    else none

def Tagged.tag : Tagged → String
  | .fields tag _ | .items tag _ => tag

/-- An alternative without fields, given as a list, has nothing but its word. -/
def Tagged.isBare : Tagged → Bool
  | .fields _ _ => true
  | .items _ given => given.isEmpty

def orDefault (v : Option Node) (default : α) (read : Node → Option α) : Option α :=
  match v with
  | some n => read n
  | none => some default

def readSource (n : Node) : Option Source := do
  let t ← readTagged n
  match t.tag with
  | "redis" =>
    match ← t.values? ["url", "stream_key", "block_timeout", "batch_size"] with
    | [url, streamKey, blockTimeout, batchSize] =>
      return .redis (← url.bind readText) (← orDefault streamKey Source.defaultStreamKey readText)
        (← orDefault blockTimeout Source.defaultBlockTimeout readText)
        (← orDefault batchSize Source.defaultBatchSize readSize)
    | _ => none
  | "memory" => if t.isBare then some .memory else none
  | _ => none

def readDestination (n : Node) : Option Destination := do
  let t ← readTagged n
  match t.tag with
  | "sqlite" =>
    match ← t.values? ["path"] with
    | [path] => return .sqlite (← path.bind readText)
    | _ => none
  | "redis" =>
    match ← t.values? ["url", "prefix"] with
    | [url, keyPrefix] =>
      return .redis (← url.bind readText) (← orDefault keyPrefix Destination.defaultPrefix readText)
    | _ => none
  | "memory" => if t.isBare then some .memory else none
  | _ => none

/-! ## Streams -/

def readScope (n : Node) : Option Dn.Scope := do Assoc.find? (← asText? n) Query.scopeWords

def readQuery (n : Node) : Option Query := do
  let fs ← asFields? ["base_dn", "scope", "filter"] n
  return {
    baseDn := ← required? fs "base_dn" asText?
    scope := ← optional? fs "scope" .sub readScope
    filter := ← optional? fs "filter" (Query.subtree "").filter asText? }

def readOptions (n : Node) : Option Json.Fields := do
  let pairs ← n.asPairs?
  match ← (Node.mapping pairs).toJson? with
  | .object fields => some fields
  | _ => none

def readTrigger (n : Node) : Option TriggerSpec := do
  let fs ← asFields? ["kind", "bucket", "options"] n
  return {
    kind := ← required? fs "kind" asText?
    bucket := ← optional? fs "bucket" none asOptionalText?
    options := ← optional? fs "options" [] readOptions }

def readStream (n : Node) : Option StreamDefinition := do
  let fs ← asFields? ["consumer_id", "source_query", "trigger_chain"] n
  return {
    consumer := ← required? fs "consumer_id" asText?
    query := ← required? fs "source_query" readQuery
    chain := ← required? fs "trigger_chain" fun n => do (← asItems? n).mapM readTrigger }

end ChangeRelay.Config

namespace ChangeRelay.Configuration

/-- The configuration that a document holds. -/
def ofNode? (n : Yaml.Node) : Option Configuration := do
  let fs ← n.asFields? ["settings", "source", "destination", "streams"]
  return {
    settings := ← Yaml.Node.optional? fs "settings" {} Config.readSettings
    source := ← Yaml.Node.required? fs "source" Config.readSource
    destination := ← Yaml.Node.required? fs "destination" Config.readDestination
    streams := ← Yaml.Node.optional? fs "streams" [] fun n => do
      (← n.asItems?).mapM Config.readStream }

/-- The configuration in the text of a file. -/
def ofYaml (text : String) : Except StreamFault Configuration :=
  match (Yaml.Node.parse? text).bind ofNode? with
  | some c => .ok c
  | none => .error (.yaml "not a configuration")

end ChangeRelay.Configuration
