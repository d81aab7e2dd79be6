import Admission.Store.Remote

/-!
# Stores on a server without errors

A server that has no error to answer with does what it is told. A store on it reads what was written
under the name of a key, as far as it can be read, and changes nothing under any other name.

## Main definitions

* `Server.text?`: the text that a server keeps under a name.
* `Server.told`, `RemoteStore.told`: what a command leaves.

## Main results

* `RemoteStore.fullKey_injective`: no two keys share a name.
* `RemoteStore.read_error`: a text that is no standing is refused and stays.
* `RemoteStore.read_ok`, `RemoteStore.write_ok`, `RemoteStore.forget_ok`: the calls on a store.
-/

namespace Admission

namespace Server

variable (s : Server)

/-- The text that a server keeps under a name. -/
def text? (name : String) : Option String := (s.table.get? name).map (·.value)

/-- A server after a command that it has obeyed. -/
def told (c : Command) : Server := ({ s with received := s.received ++ [c] }.obey c).2

@[simp]
theorem received_told (c : Command) : (s.told c).received = s.received ++ [c] := by
  cases c <;> rfl

@[simp]
theorem errors_told (c : Command) : (s.told c).errors = s.errors := by
  cases c <;> rfl

@[simp]
theorem table_told_get (name : String) : (s.told (.get name)).table = s.table := rfl

@[simp]
theorem table_told_set (name text : String) :
    (s.told (.set name text)).table = s.table.insert name ⟨text, none⟩ := rfl

@[simp]
theorem table_told_setFor (name text : String) (seconds : Nat) :
    (s.told (.setFor name text seconds)).table = s.table.insert name ⟨text, some seconds⟩ := rfl

@[simp]
theorem table_told_delete (name : String) : (s.told (.delete name)).table = s.table.erase name := rfl

variable {s}

/-- A server without errors obeys every command. -/
theorem receive_of_calm (calm : s.errors = []) (c : Command) :
    ∃ text, s.receive c = (.ok text, s.told c) := by
  obtain ⟨table, received, errors⟩ := s
  subst calm
  exact ⟨_, rfl⟩

/-- A server without errors answers with the text that is asked for. -/
theorem receive_get (calm : s.errors = []) (name : String) :
    s.receive (.get name) = (.ok (s.text? name), s.told (.get name)) := by
  obtain ⟨table, received, errors⟩ := s
  subst calm
  rfl

end Server

namespace RemoteStore

variable (s : RemoteStore)

/-- A store whose server has obeyed a command. -/
def told (c : Command) : RemoteStore := { s with server := s.server.told c }

@[simp]
theorem server_told (c : Command) : (s.told c).server = s.server.told c := rfl

@[simp]
theorem lifetime_told (c : Command) : (s.told c).lifetime = s.lifetime := rfl

@[simp]
theorem fullKey_told (c : Command) (key : String) : (s.told c).fullKey key = s.fullKey key := rfl

/-- No two keys of a store share a name on the server. -/
theorem fullKey_injective : Function.Injective s.fullKey := fun key other same => by
  have chars := congrArg String.toList same
  exact String.toList_inj.1 (by simpa [fullKey] using chars)

/-- A text that is written is found under the name of its key, and nothing else has changed. -/
theorem text?_told_write (key text name : String) :
    (s.server.told (s.writeCommand key text)).text? name =
      if name = s.fullKey key then some text else s.server.text? name := by
  rw [writeCommand]
  cases s.lifetime <;> simp only [Server.text?, Server.table_told_set, Server.table_told_setFor] <;>
    rw [Table.get?_insert] <;> split <;> rfl

variable {s} {key : String}

section Calm

variable (calm : s.server.errors = [])
include calm

theorem send_get (name : String) : s.send (.get name) = (.ok (s.server.text? name), s.told (.get name)) := by
  rw [send, Server.receive_get calm]
  rfl

theorem send_of_calm (c : Command) : ∃ text, s.send c = (.ok text, s.told c) := by
  obtain ⟨text, received⟩ := Server.receive_of_calm calm c
  exact ⟨text, by rw [send, received]; rfl⟩

/-- A key without a text reads as never seen. -/
theorem read_none (absent : s.server.text? (s.fullKey key) = none) :
    s.read key = (.ok none, s.told (.get (s.fullKey key))) := by
  rw [read, send_get calm, absent]

variable {text : String} {standing : Standing}

/-- A text that is a standing is read as that standing. -/
theorem read_ok (kept : s.server.text? (s.fullKey key) = some text)
    (readable : Standing.decode text = .ok standing) :
    s.read key = (.ok (some standing), s.told (.get (s.fullKey key))) := by
  rw [read, send_get calm, kept]
  simp only [readable]

/-- A text that is no standing is refused, under the name that it has on the server. -/
theorem read_error {fault : Json.Fault} (kept : s.server.text? (s.fullKey key) = some text)
    (unreadable : Standing.decode text = .error fault) :
    s.read key =
      (.error (.codec (s.fullKey key) (.undecodable fault)), s.told (.get (s.fullKey key))) := by
  rw [read, send_get calm, kept]
  simp only [unreadable, fullKey_told]

/-- A standing that has a text is written as that text. -/
theorem write_ok (written : standing.encode = .ok text) :
    s.write key standing = (.ok none, s.told (s.writeCommand key text)) := by
  obtain ⟨_, sent⟩ := send_of_calm calm (s.writeCommand key text)
  rw [write, written]
  simp only [sent]

theorem forget_ok (key : String) : s.forget key = (.ok none, s.told (.delete (s.fullKey key))) := by
  obtain ⟨_, sent⟩ := send_of_calm calm (.delete (s.fullKey key))
  rw [forget, sent]

end Calm

end RemoteStore

end Admission
