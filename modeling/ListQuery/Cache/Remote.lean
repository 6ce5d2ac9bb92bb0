import ListQuery.Action
import ListQuery.Cache.Memory
import ListQuery.Json.Read
import ListQuery.Json.Write
import ListQuery.Fault.Message

/-!
# A store of responses on a key-value server

Values are kept as JSON under keys that begin with the prefix of the store.  What goes wrong on the
way to the server is reported and counts as a miss.

* `Client`                       what the store asks of a server;
* `Remote.get`, `getPage`, `set`, `delete`, `clear`   the store over a client;
* `Server`, `Server.client`      a server in memory that notes its commands and can refuse them.
-/

namespace ListQuery

/-- what a store asks of a server with a state `S` -/
structure Client (S : Type) where
  get : String → Action S (Option String)
  set : String → String → Action S Unit
  /-- as `set`, for a number of seconds -/
  setWithExpiry : String → Value → String → Action S Unit
  delete : List String → Action S Unit
  /-- some of the keys that match a pattern, and the cursor to go on with, 0 at the end -/
  scan : Nat → String → Action S (Nat × List String)

def Client.within {S T : Type} (get : S → T) (put : T → S → S) (c : Client T) : Client S where
  get key := Action.within get put (c.get key)
  set key text := Action.within get put (c.set key text)
  setWithExpiry key seconds text := Action.within get put (c.setWithExpiry key seconds text)
  delete keys := Action.within get put (c.delete keys)
  scan cursor pattern := Action.within get put (c.scan cursor pattern)

/-! ## stored texts -/

namespace Stored

/-- whether a value that cannot write itself has an attribute by which it would -/
def offersText : Value → Bool
  | .object attributes => !((Value.field? "model_dump_json" attributes).getD .null).isNull
  | .kind .pageMeta => true
  | _ => false

/-- the text under which something is kept -/
def encode : Stored → Outcome String
  | .page r => JsonStyle.response.render r.toStored
  | .value (.pageMeta m) => JsonStyle.response.render (.pageMeta m)
  | .value v => if offersText v then .error .wrongKind else JsonStyle.stored.render v

def decode (text : String) : Outcome Stored :=
  match Json.readStored text with
  | .ok v => .ok (.value v)
  | .error message => .error (.unreadable message)

def decodePage (text : String) : Outcome Stored :=
  match Json.read .ofResponse text with
  | .ok v => Stored.page <$> PagedResponse.ofValue v
  | .error _ => .error (.invalid "PagedResponse" [⟨[], .notJson⟩])

end Stored

namespace Remote

variable {S : Type} (client : Client S) (storePrefix : String)

/-- reports a fault; the call goes on without an answer -/
def orReport {α : Type} (what : String) (fallback : α) (a : Action S α) : Action S α := do
  match ← Action.attempt a with
  | .ok x => return x
  | .error f =>
    Action.report "querypilot.caching" .warning (what ++ ": " ++ f.message)
    return fallback

/-- what is kept under a key, as `decode` reads it; an empty text is nothing -/
def getWith (decode : String → Outcome Stored) (key : String) : Action S (Option Stored) :=
  orReport ("Redis get failed for key " ++ key) none do
    match ← client.get (storePrefix ++ key) with
    | none => return none
    | some text => if text = "" then return none else return some (← decode text)

def get (key : String) : Action S (Option Stored) := getWith client storePrefix Stored.decode key

def getPage (key : String) : Action S (Option Stored) :=
  getWith client storePrefix Stored.decodePage key

/-- keeps a text under a key, for `ttl` seconds unless that is zero or null -/
def set (key : String) (content : Stored) (ttl : Value) : Action S Unit :=
  orReport ("Redis set failed for key " ++ key) () do
    let text ← content.encode
    if ttl.truthy then client.setWithExpiry (storePrefix ++ key) ttl text
    else client.set (storePrefix ++ key) text

def delete (key : String) : Action S Unit :=
  orReport ("Redis delete failed for key " ++ key) () (client.delete [storePrefix ++ key])

/-- deletes what each scan finds, from a cursor on; `rounds` bounds the number of scans -/
def clearFrom : (rounds cursor : Nat) → Action S Unit
  | 0, _ => return
  | rounds + 1, cursor => do
    let (next, keys) ← client.scan cursor (storePrefix ++ "*")
    if !keys.isEmpty then client.delete keys
    if next = 0 then return else clearFrom rounds next

def clear (rounds : Nat) : Action S Unit :=
  orReport ("Redis clear failed for prefix " ++ storePrefix) () (clearFrom client storePrefix rounds 0)

end Remote

/-! ## a server in memory -/

/-- texts by key, the commands received, and the commands that are refused -/
structure Server where
  entries : List (String × String) := []
  commands : List (List Value) := []
  refused : List String := []
  /-- the keys that a scan goes through -/
  scanned : List String := []
  deriving Inhabited

namespace Server

def receive (name : String) (arguments : List Value) : Action Server Unit := do
  Action.update fun s => { s with commands := s.commands ++ [.str name :: arguments] }
  if (← Action.read).refused.contains name then throw (.connection "refused")

def lookup (key : String) : List (String × String) → Option String
  | [] => none
  | (other, text) :: rest => if other = key then some text else lookup key rest

def put (key text : String) : Action Server Unit :=
  Action.update fun s => { s with entries := Value.put key text s.entries }

def scanWidth : Nat := 2

/-- the keys from the cursor on that begin with the pattern less its star -/
def scan (cursor : Nat) (pattern : String) : Action Server (Nat × List String) := do
  receive "scan" [.int cursor, .str pattern]
  if cursor = 0 then Action.update fun s => { s with scanned := s.entries.map (·.1) }
  let keys := (← Action.read).scanned
  let start := pattern.toList.dropLast
  let found := ((keys.drop cursor).take scanWidth).filter fun key =>
    Text.startsWith key.toList start
  let next := cursor + scanWidth
  return (if next < keys.length then next else 0, found)

def rounds (s : Server) : Nat := s.entries.length + 1

def client : Client Server where
  get key := do
    receive "get" [.str key]
    return lookup key (← Action.read).entries
  set key text := do
    receive "set" [.str key, .str text]
    put key text
  setWithExpiry key seconds text := do
    receive "setex" [.str key, seconds, .str text]
    put key text
  delete keys := do
    receive "delete" (keys.map .str)
    Action.update fun s => { s with entries := s.entries.filter fun entry => !keys.contains entry.1 }
  scan := scan

end Server

end ListQuery
