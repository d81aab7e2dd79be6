import Admission.Proofs.Codec.Standing
import Admission.Proofs.Store.Remote

/-!
# Keyspaces

Stores can share a server, each with a keyspace of its own. The name of a key is the keyspace, a colon and the
key, all of them as they are. So two stores can give two keys one name where one keyspace goes on behind a
colon, and the key of the other store goes on in the same way; in no other way do two keys share a name. Where
they share none, no store disturbs the other.

## Main definitions

* `RemoteStore.Within`: a keyspace that goes on behind a colon where another one ends.
* `RemoteStore.sent?`: the command that a call is sent as.
* `RemoteStore.Move`: what happens on a server that two stores share.
* `RemoteStore.UndisturbedBy`: nothing that is done through the one store is seen through the other.

## Main results

* `RemoteStore.fullKey_eq_iff`: when two keys share a name.
* `RemoteStore.get?_foldl`: what is kept under a name does not depend on calls about other names.
* `RemoteStore.keyspaces_apart`: which stores do not disturb each other, and which keys of those that do.
-/

namespace Admission

/-! ### Names -/

/-- Two texts that hold a letter can be parted at two places in one only if one of them holds the letter twice. -/
theorem List.append_cons_eq_append_cons_iff {α : Type} {x : α} {p p' k k' : List α} :
    p ++ x :: k = p' ++ x :: k' ↔ p = p' ∧ k = k' ∨ (∃ t, p' = p ++ x :: t ∧ k = t ++ x :: k') ∨
      ∃ t, p = p' ++ x :: t ∧ k' = t ++ x :: k := by
  constructor
  · intro same
    rcases List.append_eq_append_iff.1 same with ⟨_ | ⟨y, t⟩, longer, rest⟩ | ⟨_ | ⟨y, t⟩, longer, rest⟩
    · cases rest
      exact .inl ⟨(List.append_nil p).symm.trans longer.symm, rfl⟩
    · cases rest
      exact .inr (.inl ⟨t, longer, rfl⟩)
    · cases rest
      exact .inl ⟨longer.trans (List.append_nil p'), rfl⟩
    · cases rest
      exact .inr (.inr ⟨t, longer, rfl⟩)
  · rintro (⟨rfl, rfl⟩ | ⟨t, rfl, rfl⟩ | ⟨t, rfl, rfl⟩) <;> simp

namespace RemoteStore

theorem toList_fullKey (s : RemoteStore) (key : String) :
    (s.fullKey key).toList = s.keyspace.toList ++ ':' :: key.toList := by
  simp [fullKey]

/-- Two keys share a name only if they are one key in one keyspace, or one keyspace goes on where the other one
and a colon end, and the key in the other goes on in the same way. -/
theorem fullKey_eq_iff {first second : RemoteStore} {key key' : String} :
    first.fullKey key = second.fullKey key' ↔
      first.keyspace = second.keyspace ∧ key = key' ∨
      (∃ t, second.keyspace = first.fullKey t ∧ key = t ++ ":" ++ key') ∨
      ∃ t, first.keyspace = second.fullKey t ∧ key' = t ++ ":" ++ key := by
  have exists_text (P : List Char → Prop) : (∃ t, P t) ↔ ∃ t : String, P t.toList :=
    ⟨fun ⟨t, h⟩ => ⟨String.ofList t, by rwa [String.toList_ofList]⟩, fun ⟨t, h⟩ => ⟨_, h⟩⟩
  simp only [← String.toList_inj, toList_fullKey, String.toList_append]
  rw [List.append_cons_eq_append_cons_iff]
  simp only [exists_text]
  simp

/-- The keyspace of a store goes on behind a colon where that of another one ends: it is the name that the other
one gives to a key. -/
def Within (inner outer : RemoteStore) : Prop := ∃ key, inner.keyspace = outer.fullKey key

/-- Two stores share a name exactly if they have one keyspace, or one keyspace goes on where the other one ends. -/
theorem exists_fullKey_eq_iff {first second : RemoteStore} :
    (∃ key key', first.fullKey key = second.fullKey key') ↔
      first.keyspace = second.keyspace ∨ second.Within first ∨ first.Within second := by
  simp only [fullKey_eq_iff]
  constructor
  · rintro ⟨key, key', ⟨same, -⟩ | ⟨t, longer, -⟩ | ⟨t, longer, -⟩⟩
    · exact .inl same
    · exact .inr (.inl ⟨t, longer⟩)
    · exact .inr (.inr ⟨t, longer⟩)
  · rintro (same | ⟨t, longer⟩ | ⟨t, longer⟩)
    · exact ⟨"", "", .inl ⟨same, rfl⟩⟩
    · exact ⟨_, "", .inr (.inl ⟨t, longer, rfl⟩)⟩
    · exact ⟨"", _, .inr (.inr ⟨t, longer, rfl⟩)⟩

end RemoteStore

/-! ### One command -/

/-- The name under which a command changes what is kept. -/
def Command.written? : Command → Option String
  | .ping | .get _ => none
  | .set name _ | .setFor name _ _ | .delete name => some name

namespace Server

variable {s t : Server} {c : Command} {name : String}

/-- A command changes nothing under any other name, whether it is obeyed or not. -/
theorem get?_receive_of_ne (other : c.written? ≠ some name) :
    (s.receive c).2.table.get? name = s.table.get? name := by
  have apart (written : String) (wrote : c.written? = some written) : name ≠ written := fun eq =>
    other (wrote.trans (congrArg some eq.symm))
  rw [receive]
  dsimp only
  split
  · rfl
  · cases c with
    | ping | get => rfl
    | set written | setFor written => exact (Table.get?_insert ..).trans (if_neg (apart written rfl))
    | delete written => exact (Table.get?_erase ..).trans (if_neg (apart written rfl))

/-- What a command leaves under a name depends on what was kept there. -/
theorem get?_receive_congr (errors : s.errors = t.errors) (same : s.table.get? name = t.table.get? name) :
    (s.receive c).2.table.get? name = (t.receive c).2.table.get? name := by
  rw [receive, receive]
  dsimp only
  rw [errors]
  split
  · exact same
  · cases c with
    | ping | get => exact same
    | set | setFor => exact (Table.get?_insert ..).trans (same ▸ (Table.get?_insert ..).symm)
    | delete => exact (Table.get?_erase ..).trans (same ▸ (Table.get?_erase ..).symm)

/-- The answer to a question for a name depends on what is kept there. -/
theorem receive_get_congr (errors : s.errors = t.errors) (same : s.table.get? name = t.table.get? name) :
    (s.receive (.get name)).1 = (t.receive (.get name)).1 := by
  rw [receive, receive]
  dsimp only
  rw [errors]
  split
  · rfl
  · change Except.ok ((s.table.get? name).map _) = Except.ok ((t.table.get? name).map _)
    rw [same]

/-- What is left under a name when time has passed depends on what was kept there. -/
theorem get?_elapse_congr (seconds : Nat) (same : s.table.get? name = t.table.get? name) :
    (s.elapse seconds).table.get? name = (t.elapse seconds).table.get? name := by
  rw [elapse, elapse, Table.get?_filterMap, Table.get?_filterMap, same]

end Server

namespace RemoteStore

/-! ### One call -/

/-- The command that a call is sent as, if it is sent at all. -/
def sent? (s : RemoteStore) : StoreCall → Option Command
  | .get key => some (.get (s.fullKey key))
  | .set key standing => standing.encode.toOption.map (s.writeCommand key)
  | .delete key => some (.delete (s.fullKey key))
  | .close => none

variable {s : RemoteStore} {call : StoreCall} {c : Command} {name : String}

/-- A call changes what is kept under the name of its key, if anything. -/
theorem eq_fullKey_of_sent (sent : s.sent? call = some c) (written : c.written? = some name) :
    name = s.fullKey call.key := by
  cases call with
  | get key => cases sent; cases written
  | set key standing =>
    obtain ⟨text, -, rfl⟩ := Option.map_eq_some_iff.1 sent
    rw [writeCommand] at written
    cases lifetime : s.lifetime <;> rw [lifetime] at written <;> cases written <;> rfl
  | delete key => cases sent; cases written; rfl
  | close => cases sent

theorem server_send (s : RemoteStore) (c : Command) : (s.send c).2.server = (s.server.receive c).2 := by
  rw [send]
  split <;> simp [*]

/-- A call leaves the server as the command leaves it that it is sent as. -/
theorem server_answer (s : RemoteStore) (call : StoreCall) :
    (Store.answer call s).2.server = ((s.sent? call).map fun c => (s.server.receive c).2).getD s.server := by
  cases call with
  | get key =>
    change (s.read key).2.server = (s.server.receive _).2
    rw [← server_send, read]
    split
    · simp [*]
    · simp [*]
    · split <;> simp [*]
  | set key standing =>
    change (s.write key standing).2.server = _
    rw [write, sent?]
    cases standing.encode with
    | error error => rfl
    | ok text =>
      change _ = (s.server.receive (s.writeCommand key text)).2
      rw [← server_send]
      dsimp only
      split <;> simp [*]
  | delete key =>
    change (s.forget key).2.server = (s.server.receive _).2
    rw [← server_send, forget]
    split <;> simp [*]
  | close => rfl

/-- What a store makes of the answer of its server to a question for a name. -/
def reading (name : String) : Except ServerError (Option String) → StoreAnswer
  | .error error => .error (.server error)
  | .ok none => .ok none
  | .ok (some text) =>
    match Standing.decode text with
    | .ok standing => .ok (some standing)
    | .error fault => .error (.codec name (.undecodable fault))

theorem answer_get (s : RemoteStore) (key : String) : (Store.answer (.get key) s).1 =
    reading (s.fullKey key) (s.server.receive (.get (s.fullKey key))).1 := by
  change (s.read key).1 = _
  rw [read, send]
  rcases s.server.receive (.get (s.fullKey key)) with ⟨_ | _ | text, server⟩
  · rfl
  · rfl
  · dsimp only [reading]
    cases Standing.decode text <;> rfl

/-! ### Two stores on one server -/

/-- The store on a server that will answer with some errors. -/
def on (s : RemoteStore) (server : Server) (errors : List (String × ServerError)) : RemoteStore :=
  { s with server := { server with errors } }

/-- What happens on a server that two stores share. The server may have errors to answer a call with. -/
inductive Move
  | own (call : StoreCall) (errors : List (String × ServerError))
  /-- A call through the other store. -/
  | foreign (call : StoreCall) (errors : List (String × ServerError))
  | elapse (seconds : Nat)

namespace Move

/-- Whether the other store is called. -/
def isForeign : Move → Bool
  | .foreign .. => true
  | .own .. | .elapse _ => false

/-- The server after a move. -/
def go (own foreign : RemoteStore) (server : Server) : Move → Server
  | .own call errors => (Store.answer call (own.on server errors)).2.server
  | .foreign call errors => (Store.answer call (foreign.on server errors)).2.server
  | .elapse seconds => server.elapse seconds

end Move

variable {own foreign : RemoteStore} {server server' : Server}

/-- A call through a store changes nothing under any other name than that of its key. -/
theorem get?_answer_of_ne (s : RemoteStore) (call : StoreCall) (errors : List (String × ServerError))
    (other : s.fullKey call.key ≠ name) :
    (Store.answer call (s.on server errors)).2.server.table.get? name = server.table.get? name := by
  rw [server_answer]
  cases sent : (s.on server errors).sent? call with
  | none => rfl
  | some c => exact Server.get?_receive_of_ne fun written => other (eq_fullKey_of_sent sent written).symm

/-- What a call leaves under a name depends on what was kept there. -/
theorem get?_answer_congr (s : RemoteStore) (call : StoreCall) (errors : List (String × ServerError))
    (same : server.table.get? name = server'.table.get? name) :
    (Store.answer call (s.on server errors)).2.server.table.get? name =
      (Store.answer call (s.on server' errors)).2.server.table.get? name := by
  have sent : (s.on server errors).sent? call = (s.on server' errors).sent? call := by cases call <;> rfl
  rw [server_answer, server_answer, sent]
  cases (s.on server' errors).sent? call with
  | none => exact same
  | some c => exact Server.get?_receive_congr rfl same

/-- A move leaves under a name what it would have left without the calls of another store about other names. -/
theorem get?_foldl (moves : List Move)
    (other : ∀ call errors, Move.foreign call errors ∈ moves → foreign.fullKey call.key ≠ name)
    (same : server.table.get? name = server'.table.get? name) :
    (moves.foldl (Move.go own foreign) server).table.get? name =
      ((moves.filter fun move => !move.isForeign).foldl (Move.go own foreign) server').table.get? name := by
  induction moves generalizing server server' with
  | nil => exact same
  | cons move later ih =>
    have later_other : ∀ call errors, Move.foreign call errors ∈ later → foreign.fullKey call.key ≠ name :=
      fun call errors among => other call errors (List.mem_cons_of_mem _ among)
    cases move with
    | own call errors => exact ih later_other (get?_answer_congr own call errors same)
    | foreign call errors =>
      refine ih later_other ?_
      exact (get?_answer_of_ne foreign call errors (other call errors List.mem_cons_self)).trans same
    | elapse seconds => exact ih later_other (Server.get?_elapse_congr seconds same)

/-- A store reads for a key what it would have read without the calls of another store about other names. -/
theorem answer_get_foldl {key : String} (moves : List Move) (server : Server)
    (errors : List (String × ServerError))
    (other : ∀ call errors, Move.foreign call errors ∈ moves → foreign.fullKey call.key ≠ own.fullKey key) :
    (Store.answer (.get key) (own.on (moves.foldl (Move.go own foreign) server) errors)).1 =
      (Store.answer (.get key) (own.on
        ((moves.filter fun move => !move.isForeign).foldl (Move.go own foreign) server) errors)).1 := by
  rw [answer_get, answer_get]
  exact congrArg (reading (own.fullKey key)) (Server.receive_get_congr rfl (get?_foldl moves other rfl))

/-- Whatever happens on a server, a store reads what it would have read if the other store had not been
called. -/
def UndisturbedBy (own foreign : RemoteStore) : Prop :=
  ∀ (server : Server) (moves : List Move) (key : String) (errors : List (String × ServerError)),
    (Store.answer (.get key) (own.on (moves.foldl (Move.go own foreign) server) errors)).1 =
      (Store.answer (.get key) (own.on
        ((moves.filter fun move => !move.isForeign).foldl (Move.go own foreign) server) errors)).1

/-- A text that is kept is not read as none. -/
theorem reading_some_ne (name text : String) : reading name (.ok (some text)) ≠ .ok none := by
  rw [reading]
  split <;> exact fun same => by cases same

/-- A store whose keys share a name with the other one's reads what was written through that. -/
theorem not_undisturbedBy_of_shared {key key' : String} (shared : foreign.fullKey key' = own.fullKey key) :
    ¬ own.UndisturbedBy foreign := by
  intro undisturbed
  obtain ⟨text, written, -⟩ :=
    Standing.exists_encode (s := .fresh 1 .epoch) ⟨by decide +kernel, le_refl _, le_refl _⟩
  have calm : (foreign.on .empty []).server.errors = [] := rfl
  have kept : ((foreign.on .empty []).write key' (.fresh 1 .epoch)).2.server.text? (own.fullKey key) =
      some text := by
    rw [write_ok calm written, server_told, text?_told_write]
    exact if_pos shared.symm
  have asked : ((own.on ((foreign.on .empty []).write key' (.fresh 1 .epoch)).2.server []).server.receive
      (.get (own.fullKey key))).1 = .ok (some text) := by
    rw [Server.receive_get rfl, ← kept]
    rfl
  have same := undisturbed .empty [.foreign (.set key' (.fresh 1 .epoch)) []] key []
  rw [answer_get, answer_get] at same
  exact reading_some_ne _ text ((congrArg (reading (own.fullKey key)) asked).symm.trans same)

/-- Two keys of two stores share a name only if they are one key in one keyspace, or one keyspace goes on where
the other one and a colon end, and the key in the other goes on in the same way. What a store reads for a key
does not depend on calls through another store about keys that share no name with it; so no call through the
other store is seen exactly if the keyspaces differ and neither goes on where the other one ends. -/
theorem keyspaces_apart (own foreign : RemoteStore) :
    (∀ key key', own.fullKey key = foreign.fullKey key' ↔
      own.keyspace = foreign.keyspace ∧ key = key' ∨
      (∃ t, foreign.keyspace = own.fullKey t ∧ key = t ++ ":" ++ key') ∨
      ∃ t, own.keyspace = foreign.fullKey t ∧ key' = t ++ ":" ++ key) ∧
    (∀ (key : String) (moves : List Move) (server : Server) (errors : List (String × ServerError)),
      (∀ call errors, Move.foreign call errors ∈ moves → foreign.fullKey call.key ≠ own.fullKey key) →
      (Store.answer (.get key) (own.on (moves.foldl (Move.go own foreign) server) errors)).1 =
        (Store.answer (.get key) (own.on
          ((moves.filter fun move => !move.isForeign).foldl (Move.go own foreign) server) errors)).1) ∧
    (own.UndisturbedBy foreign ↔
      own.keyspace ≠ foreign.keyspace ∧ ¬ foreign.Within own ∧ ¬ own.Within foreign) := by
  refine ⟨fun _ _ => fullKey_eq_iff, fun _ moves server errors => answer_get_foldl moves server errors, ?_⟩
  have parted : (own.keyspace ≠ foreign.keyspace ∧ ¬ foreign.Within own ∧ ¬ own.Within foreign) ↔
      ¬ ∃ key key', own.fullKey key = foreign.fullKey key' := by
    rw [exists_fullKey_eq_iff, not_or, not_or]
  rw [parted]
  constructor
  · rintro undisturbed ⟨key, key', shared⟩
    exact not_undisturbedBy_of_shared shared.symm undisturbed
  · intro apart server moves key errors
    exact answer_get_foldl moves server errors fun call _ _ shared => apart ⟨key, call.key, shared.symm⟩

/-- A store with a keyspace, on a server that keeps nothing. -/
def named (keyspace : String) : RemoteStore := ⟨.empty, keyspace, some defaultLifetime⟩

/-- A key of one store that has no colon in it is no key of the other, whose keyspace goes on behind a colon; so a
call through that one is not seen. Two stores of which neither goes on where the other one ends see nothing of
each other. -/
theorem keyspaces_apart_siblings :
    (∀ call errors, Move.foreign call errors ∈ [Move.foreign (.delete "c") []] →
        (named "a:b").fullKey call.key ≠ (named "a").fullKey "c") ∧
      (Store.answer (.get "c") ((named "a").on
        ([Move.foreign (.delete "c") []].foldl (Move.go (named "a") (named "a:b")) .empty) [])).1 = .ok none ∧
      ((named "a").keyspace ≠ (named "b").keyspace ∧ ¬ (named "b").Within (named "a") ∧
        ¬ (named "a").Within (named "b")) ∧
      (named "a").UndisturbedBy (named "b") := by
  have unseen : ∀ call errors, Move.foreign call errors ∈ [Move.foreign (.delete "c") []] →
      (named "a:b").fullKey call.key ≠ (named "a").fullKey "c" := by
    intro call errors among
    cases List.mem_singleton.1 among
    decide
  have apart : (named "a").keyspace ≠ (named "b").keyspace ∧ ¬ (named "b").Within (named "a") ∧
      ¬ (named "a").Within (named "b") := by
    -- Neither keyspace has room for the other one and a colon.
    refine ⟨by decide, ?_, ?_⟩ <;>
    · rintro ⟨key, longer⟩
      have letters := congrArg String.toList longer
      rw [toList_fullKey] at letters
      simp [named] at letters
  exact ⟨unseen, (keyspaces_apart (named "a") (named "a:b")).2.1 "c" _ .empty [] unseen, apart,
    (keyspaces_apart (named "a") (named "b")).2.2.2 apart⟩

/-- One store keeps a standing for a key, and another one, with another keyspace, reads it for another key. -/
theorem keyspaces_overlap :
    ((named "a").keyspace ≠ (named "a:b").keyspace ∧ (named "a").fullKey "b:c" = (named "a:b").fullKey "c") ∧
      (Store.answer (.get "c") (named "a:b")).1 = .ok none ∧
      (Store.answer (.get "c") ((named "a:b").on
        (Store.answer (.set "b:c" (.fresh 1 .epoch)) (named "a")).2.server [])).1 =
          .ok (some (.fresh 1 .epoch)) :=
  ⟨by decide, rfl, by decide +kernel⟩

end RemoteStore

end Admission
