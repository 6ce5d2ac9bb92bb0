import ListQuery.Builder.Cached
import ListQuery.Builder.Metered
import ListQuery.Builder.Notifying
import ListQuery.Builder.Scoped
import ListQuery.Cache.Key
import ListQuery.Session.State

/-!
# Layers

What can be put around the builder of a session, and the builder under a stack of layers.

* `Layer`          a layer with its settings;
* `Stack.base`     the builder over the executor alone;
* `Stack.push`     one more layer around it;
* `Stack.ofLayers` all layers in turn, the first innermost.
-/

namespace ListQuery

/-! ## stores of responses -/

inductive Keeping where
  /-- in memory, with room for so many and a lifetime for those kept without one -/
  | memory (maxEntries defaultTtl : Value)
  /-- on the server of the session -/
  | remote
  /-- in a store that is down -/
  | down
  deriving Inhabited

inductive KeyRule where
  | none
  /-- from all parts of the request -/
  | whole
  /-- the name of its collection -/
  | model
  deriving DecidableEq, Inhabited

namespace KeyRule

def function? : KeyRule → Option (Request → Outcome String)
  | none => Option.none
  | whole => some (CacheKey.ofRequest {})
  | model => some fun r => .ok (r.model.getD "")

end KeyRule

namespace Session

def memoryStore (i : Nat) : ResponseStore Session :=
  .ofMemory (·.clock) (·.memories.getD i {}) fun m s => { s with memories := s.memories.set i m }

def client : Client Session :=
  Server.client.within (·.server) fun server s => { s with server }

def serverStore : ResponseStore Session := .ofClient client "querypilot:"

end Session

/-! ## layers -/

inductive Layer where
  /-- passes everything on -/
  | plain
  | tenant (id : Value) (field : String)
  | softDelete (rows : Trash) (field : String)
  | cached (keeping : Keeping) (rule : KeyRule) (ttl : Value)
  | metered (threshold : Value) (counted : Bool)
  | notifying (url : String) (headers : List (String × Value)) (withRequest ownClient : Bool)
  deriving Inhabited

structure CacheLayer where
  inner : Builder Session
  store : ResponseStore Session
  ttl : Value
  /-- the position of its memory, if it has one -/
  memory : Option Nat

/-- a builder under layers, with what they keep at the start -/
structure Stack where
  builder : Builder Session
  memories : List Memory := []
  meters : List Meter := []
  /-- the outermost layer that keeps responses -/
  cache : Option CacheLayer := none

namespace Stack

def base (config : Config) : Stack := { builder := Builder.base config Session.executor }

def pushCached (s : Stack) (keeping : Keeping) (rule : KeyRule) (ttl : Value) : Stack :=
  let (store, memory, memories) : ResponseStore Session × Option Nat × List Memory :=
    match keeping with
    | .memory maxEntries defaultTtl =>
      (Session.memoryStore s.memories.length, some s.memories.length,
        s.memories ++ [{ maxEntries, defaultTtl }])
    | .remote => (Session.serverStore, none, s.memories)
    | .down => (.down, none, s.memories)
  { s with
    builder := s.builder.cached store ttl rule.function?
    memories
    cache := some { inner := s.builder, store, ttl, memory } }

def pushMetered (s : Stack) (now : Instant) (threshold : Value) (counted : Bool) : Stack :=
  let i := s.meters.length
  { s with
    builder := s.builder.metered (·.clock) fun r elapsed count =>
      Session.meterAt i (Meter.record now r elapsed count)
    meters := s.meters ++ [{ threshold, registry := if counted then some {} else none }] }

def push (now : Instant) (s : Stack) : Layer → Outcome Stack
  | .plain => .ok s
  | .tenant id field => do return { s with builder := ← s.builder.tenant id field }
  | .softDelete rows field => .ok { s with builder := s.builder.softDelete rows field }
  | .cached keeping rule ttl => .ok (s.pushCached keeping rule ttl)
  | .metered threshold counted => .ok (s.pushMetered now threshold counted)
  | .notifying url headers withRequest ownClient =>
    let schedule (payload : Payload) : Action Session Unit :=
      Session.ofCourier (Courier.schedule { url, payload, headers, ownClient })
    .ok { s with builder := s.builder.notifying now schedule withRequest }

def ofLayers (config : Config) (now : Instant) (layers : List Layer) : Outcome Stack :=
  layers.foldlM (push now) (base config)

def session (s : Stack) (store : Store) (now : Instant) (latency : Value) : Session :=
  { store, now, latency, memories := s.memories, meters := s.meters }

end Stack

end ListQuery
