import Admission.Proofs.Bucket.Finite
import Admission.Proofs.Codec.Standing
import Admission.Proofs.Limiter.Failure
import Admission.Proofs.Limiter.Lifecycle
import Admission.Proofs.Store.Remote

/-!
# Limiters over what a server keeps

A limiter takes nothing for a standing that is none, and leaves nothing behind that it could not read
again. A text that is no standing ends every operation that reads it, and stays; a text that is one is
decided on, and what takes its place is a standing again.

## Main results

* `Bucket.decide_storable`: what a decision leaves can be written and read.
* `Limiter.perform_undecodable`: an operation on a text that is no standing.
* `Limiter.grant_decodable`: a grant on a text that is a standing.
* `Limiter.perform_kept`: both.
-/

namespace Admission

/-- A decision after the epoch leaves a standing that can be written and read, if it was made on one. -/
theorem Bucket.decide_storable (b : Bucket) {standing : Standing} {now : Instant} (late : 0 ≤ now.nanos)
    (storable : standing.Storable) : (b.decide standing now).2.Storable where
  credits := b.decide_isFinite now storable.credits
  lastUpdate := by rwa [b.decide_lastUpdate]
  created := by
    rw [b.decide_created]
    exact storable.created

/-- So does a new key. -/
theorem Bucket.fresh_storable (b : Bucket) {now : Instant} (late : 0 ≤ now.nanos) :
    (b.fresh now).Storable where
  credits := b.fresh_isFinite now
  lastUpdate := by rwa [b.fresh_lastUpdate]
  created := by rwa [b.fresh_created]

namespace Limiter

section Timer

variable [Timer] (l : Limiter) {key payload : String} {own : Option Duration} {now : Instant} {moment : Nat}
  {s : Scripted RemoteStore}

section Kept

variable (calm : s.inner.server.errors = [])
  (kept : s.inner.server.text? (s.inner.fullKey key) = some payload)
  (loads : (s.course .get).Served (Timer.runs moment) (l.limitOf own))
include calm kept loads

variable (now) in
/-- A text that is no standing ends every operation that reads it: nothing but the reading was sent. -/
theorem perform_undecodable {fault : Json.Fault} (unreadable : Standing.decode payload = .error fault)
    {op : Operation} (reads : op = .grant key ∨ op = .preview key) :
    (l.perform op own now moment s).ending =
        some (.failed .get (.store (.codec (s.inner.fullKey key) (.undecodable fault)))) ∧
      (l.perform op own now moment s).store.inner = s.inner.told (.get (s.inner.fullKey key)) := by
  have fails : Store.answer (.get key) s.inner = _ := RemoteStore.read_error calm kept unreadable
  rw [perform]
  rcases reads with rfl | rfl <;> rw [Operation.plan, Plan.perform_ask_failed _ loads fails] <;>
    exact ⟨rfl, rfl⟩

/-- A text that is a standing is decided on, and what the decision leaves is written in its place. -/
theorem grant_decodable
    (stores : (s.course .set).Served (Timer.runs (moment + (s.course .get).due.getD 0)) (l.limitOf own))
    {standing : Standing} (readable : Standing.decode payload = .ok standing) (late : 0 ≤ now.nanos) :
    ∃ text, (l.bucket.decide standing now).2.encode = .ok text ∧
      Standing.decode text = .ok (l.bucket.decide standing now).2.retold ∧
      (l.perform (.grant key) own now moment s).ending =
        some (.answered (.granted (l.bucket.decide standing now).1)) ∧
      (l.perform (.grant key) own now moment s).store.inner =
        (s.inner.told (.get (s.inner.fullKey key))).told (s.inner.writeCommand key text) := by
  have storable := l.bucket.decide_storable late (Standing.storable_of_decode readable)
  obtain ⟨text, written, again⟩ := Standing.exists_encode storable
  refine ⟨text, written, again, ?_⟩
  have loaded : Store.answer (.get key) s.inner = _ := RemoteStore.read_ok calm kept readable
  have stored : Store.answer (.set key (l.bucket.decide standing now).2)
      (s.inner.told (.get (s.inner.fullKey key))) = _ :=
    RemoteStore.write_ok (by rwa [RemoteStore.server_told, Server.errors_told]) written
  have apart : (StoreCall.get key).op ≠ .set := nofun
  rw [← s.served_course (s.inner.told (.get (s.inner.fullKey key))) apart] at stores
  rw [perform, Operation.plan_grant, Plan.perform_ask_served _ loads loaded, Option.getD_some,
    show (StoreCall.get key).op = .get from rfl, Plan.perform_ask_served (.set key _) stores stored]
  exact ⟨rfl, rfl⟩

end Kept

/-- A text that a server keeps for a key is never taken for a key that was never seen. If it is no
standing, both a grant and a preview fail with the name of the text; they have sent nothing but the
question for it, and all texts stay in place. If it is a standing, a grant answers with the decision on
it, and writes a text that is a standing again: it is as of now, and the key was first seen when it was.
No other text changes. -/
theorem perform_kept (key payload : String) (own : Option Duration) (now : Instant) (moment : Nat)
    (s : Scripted RemoteStore) (late : 0 ≤ now.nanos) (calm : s.inner.server.errors = [])
    (loads : (s.course .get).Served (Timer.runs moment) (l.limitOf own))
    (stores : (s.course .set).Served (Timer.runs (moment + (s.course .get).due.getD 0)) (l.limitOf own))
    (kept : s.inner.server.text? (s.inner.fullKey key) = some payload) :
    (∀ fault, Standing.decode payload = .error fault → ∀ op ∈ [Operation.grant key, .preview key],
      (l.perform op own now moment s).ending.map Ending.result =
          some (.error (.store (.codec (s.inner.fullKey key) (.undecodable fault)))) ∧
        (l.perform op own now moment s).store.inner.server.received =
          s.inner.server.received ++ [.get (s.inner.fullKey key)] ∧
        (l.perform op own now moment s).store.inner.server.table = s.inner.server.table) ∧
    ∀ standing, Standing.decode payload = .ok standing →
      (l.perform (.grant key) own now moment s).ending.map Ending.result =
          some (.ok (.granted (l.bucket.decide standing now).1)) ∧
        ∃ text next,
          (l.perform (.grant key) own now moment s).store.inner.server.received =
            s.inner.server.received ++ [.get (s.inner.fullKey key), s.inner.writeCommand key text] ∧
          (∀ name, (l.perform (.grant key) own now moment s).store.inner.server.text? name =
            if name = s.inner.fullKey key then some text else s.inner.server.text? name) ∧
          Standing.decode text = .ok next ∧ next.lastUpdate = now ∧ next.created = standing.created := by
  refine ⟨fun fault unreadable op reads => ?_, fun standing readable => ?_⟩
  · obtain ⟨ending, inner⟩ :=
      l.perform_undecodable now calm kept loads unreadable (by simpa using reads)
    rw [ending, inner]
    exact ⟨rfl, rfl, rfl⟩
  · obtain ⟨text, -, again, ending, inner⟩ :=
      l.grant_decodable calm kept loads stores readable late
    rw [ending, inner]
    refine ⟨rfl, text, _, by simp, fun name => ?_, again, ?_, ?_⟩
    · exact RemoteStore.text?_told_write (s.inner.told (.get (s.inner.fullKey key))) key text name
    · rw [Standing.lastUpdate_retold, l.bucket.decide_lastUpdate]
    · rw [Standing.created_retold, l.bucket.decide_created]

end Timer

end Limiter

/-- What a server keeps for a key first seen at the epoch, with far more credits than any burst gives. -/
def Standing.overfullText : String :=
  "\x7b\"credits\":3e300,\"last_update\":\x7b\"secs_since_epoch\":0,\"nanos_since_epoch\":0\x7d," ++
    "\"created\":\x7b\"secs_since_epoch\":0,\"nanos_since_epoch\":0\x7d\x7d"

/-- A server that keeps a text without members for one key and an overfull standing for another. -/
def RemoteStore.withTexts : RemoteStore :=
  ⟨(Server.empty.plant "api:torn" "\x7b\x7d").plant "api:full" Standing.overfullText, "api", none⟩

/-- A grant over these texts, one second after the epoch. -/
def Performed.grantWithTexts (key : String) : Performed RemoteStore :=
  Limiter.onePerSecond.perform (.grant key) none .second 0 (.ofStore .withTexts)

/-- The key whose text has no members is not granted and its text stays; the overfull one is granted, and
what is written for it can be read. -/
theorem Limiter.perform_kept_withTexts :
    ((Performed.grantWithTexts "torn").ending.map Ending.result = some (.error (.store (.codec "api:torn"
        (.undecodable (.mismatch (.missingMember "credits")))))) ∧
      (Performed.grantWithTexts "torn").store.inner.server.table = RemoteStore.withTexts.server.table) ∧
    (Performed.grantWithTexts "full").ending.map Ending.result =
        some (.ok (.granted ⟨true, 0, .second, .zero⟩)) ∧
      ∃ text next, (Performed.grantWithTexts "full").store.inner.server.text? "api:full" = some text ∧
        Standing.decode text = .ok next ∧ next.lastUpdate = .second ∧ next.created = .epoch := by
  have served : ∀ op, ((Scripted.ofStore RemoteStore.withTexts).course op).Served (Timer.runs 0)
      (onePerSecond.limitOf none) := fun op => ⟨rfl, 0, rfl, nofun⟩
  have torn := (onePerSecond.perform_kept "torn" _ none .second 0 (.ofStore .withTexts) (by decide) rfl
    (served .get) (served .set) (by rfl)).1 (.mismatch (.missingMember "credits")) (by decide +kernel) (.grant "torn") (by simp)
  have full := (onePerSecond.perform_kept "full" _ none .second 0 (.ofStore .withTexts) (by decide) rfl
    (served .get) (served .set) (by rfl)).2 ⟨Binary64.nearest false (3 * 10 ^ 300) 1, .epoch, .epoch⟩ (by decide +kernel)
  simp only [Performed.grantWithTexts]
  refine ⟨⟨torn.1, torn.2.2⟩, full.1.trans (by decide +kernel), ?_⟩
  obtain ⟨-, text, next, -, texts, again, updated, created⟩ := full
  have written := (texts (RemoteStore.withTexts.fullKey "full")).trans (if_pos rfl)
  exact ⟨text, next, written, again, updated, created⟩

end Admission
