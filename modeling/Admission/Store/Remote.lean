import Admission.Store.Basic
import Admission.Text.Quoted

/-!
# Remote stores

A remote store keeps standings as JSON text on a server of texts, each under its keyspace and its key.
Writes can carry a lifetime, after which the server forgets the text; a key forgotten reads as never
seen.

## Main definitions

* `Command`, `Server`: a server of texts, and what it can be told.
* `RemoteStore`: a store on such a server.
* `RemoteStore.fullKey`: the name under which the server keeps a key.
-/

namespace Admission

-- Powers of natural numbers are the core library's, whatever else is in scope.
attribute [local instance (high)] instPowNat

/-! ### The server -/

/-- What a server of texts can be told. -/
inductive Command
  | ping
  | get (key : String)
  | set (key value : String)
  /-- Keeps a text for some seconds. -/
  | setFor (key value : String) (seconds : Nat)
  | delete (key : String)
  deriving DecidableEq, Repr

/-- The command in words, the way it is sent. -/
def Command.words : Command → List String
  | .ping => ["PING"]
  | .get key => ["GET", key]
  | .set key value => ["SET", key, value]
  | .setFor key value seconds => ["SETEX", key, toString seconds, value]
  | .delete key => ["DEL", key]

/-- The name of a command. -/
def Command.name (c : Command) : String := c.words.headD ""

/-- A text on a server, with the seconds it has left, if they are numbered. -/
structure StoredText where
  value : String
  secondsLeft : Option Nat
  deriving DecidableEq, Repr

/-- A server of texts. -/
structure Server where
  table : Table StoredText
  /-- The commands it got and nobody looked at yet, oldest first. -/
  received : List Command
  /-- Errors it will answer with, each to the next command of a name. -/
  errors : List (String × ServerError)

namespace Server

/-- A server that keeps nothing. -/
def empty : Server := ⟨.empty, [], []⟩

/-- Takes the first error meant for a name out of a list. -/
def takeError (name : String) :
    List (String × ServerError) → Option (ServerError × List (String × ServerError))
  | [] => none
  | e :: rest =>
    if e.1 = name then some (e.2, rest)
    else (takeError name rest).map fun found => (found.1, e :: found.2)

/-- Does what a command says, and answers with the text asked for. -/
def obey (s : Server) : Command → Option String × Server
  | .ping => (none, s)
  | .get key => ((s.table.get? key).map (·.value), s)
  | .set key value => (none, { s with table := s.table.insert key ⟨value, none⟩ })
  | .setFor key value seconds =>
    (none, { s with table := s.table.insert key ⟨value, some seconds⟩ })
  | .delete key => (none, { s with table := s.table.erase key })

/-- Receives a command. It is answered with an error if one is meant for it, and obeyed otherwise. -/
def receive (s : Server) (c : Command) : Except ServerError (Option String) × Server :=
  let s := { s with received := s.received ++ [c] }
  match takeError c.name s.errors with
  | some (error, errors) => (.error error, { s with errors })
  | none =>
    let (text, s) := s.obey c
    (.ok text, s)

/-- Lets seconds pass: texts that have no more left are forgotten. -/
def elapse (s : Server) (seconds : Nat) : Server :=
  { s with
    table := s.table.filterMap fun stored =>
      match stored.secondsLeft with
      | none => some stored
      | some left =>
        if left ≤ seconds then none else some { stored with secondsLeft := some (left - seconds) } }

/-- Keeps a text without having been told to by a command. -/
def plant (s : Server) (key value : String) : Server :=
  { s with table := s.table.insert key ⟨value, none⟩ }

/-- Answers the next command of a name with an error. -/
def failNext (s : Server) (name : String) (error : ServerError) : Server :=
  { s with errors := s.errors ++ [(name, error)] }

/-- The keys of all texts, sorted. -/
def sortedKeys (s : Server) : List String := s.table.keys.mergeSort

end Server

/-! ### The store -/

/-- A store on a server. -/
structure RemoteStore where
  server : Server
  /-- What the names of all its keys start with. -/
  keyspace : String
  /-- How long a standing is kept after it was written; forever if there is no limit. -/
  lifetime : Option Duration

namespace RemoteStore

/-- The keyspace of a store that was given none. -/
def defaultKeyspace : String := "throttle"

/-- A day, for which a standing is kept unless something else was asked for. -/
def defaultLifetime : Duration := ⟨86400 * nanosPerSecond, by decide⟩

/-- Whether a text can be the address of a server: it starts with one of the schemes. -/
def isAddress (url : String) : Bool :=
  let chars := url.toList
  let scheme := chars.takeWhile (· ≠ ':')
  decide (scheme.length < chars.length) &&
    ["redis", "rediss", "redis+unix", "unix"].contains (String.ofList (scheme.map Char.toLower))

/-- Connects to a server, which has to answer a first command. An empty keyspace stands for the default
one. -/
def connect (server : Server) (keyspace : String) : Except StoreError RemoteStore :=
  match server.receive .ping with
  | (.error error, _) => .error (.server error)
  | (.ok _, server) =>
    let keyspace := if keyspace = "" then defaultKeyspace else keyspace
    .ok { server, keyspace, lifetime := some defaultLifetime }

/-- Checks an address before it is connected to. -/
def checkAddress (url : String) : Except StoreError Unit :=
  if isAddress url then .ok () else .error (.server .badAddress)

/-- The name under which the server keeps a key. -/
def fullKey (s : RemoteStore) (key : String) : String := s.keyspace ++ ":" ++ key

/-- The whole seconds that a lifetime is given on the server: rounded up, and never none. -/
def lifetimeSeconds (d : Duration) : Nat :=
  if d.subsecNanos = 0 ∧ d.wholeSeconds ≠ 0 then d.wholeSeconds
  else min (d.wholeSeconds + 1) (2 ^ (64 : Nat) - 1)

/-- Sends a command to the server. -/
def send (s : RemoteStore) (c : Command) : Except StoreError (Option String) × RemoteStore :=
  match s.server.receive c with
  | (.ok text, server) => (.ok text, { s with server })
  | (.error error, server) => (.error (.server error), { s with server })

/-- The command that writes a text under a key. -/
def writeCommand (s : RemoteStore) (key text : String) : Command :=
  match s.lifetime with
  | some d => .setFor (s.fullKey key) text (lifetimeSeconds d)
  | none => .set (s.fullKey key) text

/-- Reads the standing of a key. A text that is no standing is a failure, and stays in place. -/
def read (s : RemoteStore) (key : String) : StoreAnswer × RemoteStore :=
  match s.send (.get (s.fullKey key)) with
  | (.error error, s) => (.error error, s)
  | (.ok none, s) => (.ok none, s)
  | (.ok (some text), s) =>
    match Standing.decode text with
    | .ok standing => (.ok (some standing), s)
    | .error fault => (.error (.codec (s.fullKey key) (.undecodable fault)), s)

/-- Writes the standing of a key. One that has no text is a failure, and nothing is sent. -/
def write (s : RemoteStore) (key : String) (standing : Standing) : StoreAnswer × RemoteStore :=
  match standing.encode with
  -- Nothing is sent for a standing that has no text.
  | .error error => (.error (.codec (s.fullKey key) (.unencodable error)), s)
  | .ok text =>
    match s.send (s.writeCommand key text) with
    | (.error error, s) => (.error error, s)
    | (.ok _, s) => (.ok none, s)

/-- Has the server forget a key. -/
def forget (s : RemoteStore) (key : String) : StoreAnswer × RemoteStore :=
  match s.send (.delete (s.fullKey key)) with
  | (.error error, s) => (.error error, s)
  | (.ok _, s) => (.ok none, s)

instance : Store RemoteStore where
  answer
    | .get key, s => s.read key
    | .set key standing, s => s.write key standing
    | .delete key, s => s.forget key
    | .close, s => (.ok none, s)

/-- The store in words. -/
def text (s : RemoteStore) : String :=
  "RedisStore \x7b prefix: " ++ Text.quote s.keyspace ++ ", ttl: " ++
    (match s.lifetime with
     | none => "None"
     | some d => "Some(" ++ d.text ++ ")") ++ " \x7d"

end RemoteStore

end Admission
