import Admission.Algorithm
import Admission.Bucket.Leaky
import Admission.Bucket.Token

/-!
# Buckets

A bucket is an algorithm with the quota it works to. It decides on one request from one key's
standing and the time, and nothing else; a run of requests is the fold of that decision over the
times at which they come.

## Main definitions

* `Bucket.decide`, `Bucket.preview`, `Bucket.fresh`: the decision, its rehearsal, the first standing.
* `Bucket.run`: the decisions on a run of requests, each with the standing it leaves.
-/

namespace Admission

/-- An algorithm and the quota it works to. -/
structure Bucket where
  algorithm : Algorithm
  quota : Quota
  deriving DecidableEq

namespace Bucket

/-- Decides on one request, and the standing to keep. -/
def decide (b : Bucket) (standing : Standing) (now : Instant) : Decision × Standing :=
  match b.algorithm with
  | .tokenBucket => TokenBucket.decide b.quota standing now
  | .leakyBucket => LeakyBucket.decide b.quota standing now

/-- What `decide` would decide, with nothing spent. -/
def preview (b : Bucket) (standing : Standing) (now : Instant) : Decision :=
  match b.algorithm with
  | .tokenBucket => TokenBucket.preview b.quota standing now
  | .leakyBucket => LeakyBucket.preview b.quota standing now

/-- The standing of a key never seen before. -/
def fresh (b : Bucket) (now : Instant) : Standing :=
  match b.algorithm with
  | .tokenBucket => TokenBucket.fresh b.quota now
  | .leakyBucket => LeakyBucket.fresh now

/-- The decisions on requests at the given times, each with the standing that it leaves. -/
def run (b : Bucket) (standing : Standing) : List Instant → List (Decision × Standing)
  | [] => []
  | now :: later =>
    let next := b.decide standing now
    next :: b.run next.2 later

/-- The standing that a run of requests leaves. -/
def standingAfter (b : Bucket) (standing : Standing) (times : List Instant) : Standing :=
  times.foldl (fun s now => (b.decide s now).2) standing

/-- A request that comes after a run is decided on the standing that the run left. -/
theorem standingAfter_concat (b : Bucket) (standing : Standing) (times : List Instant)
    (now : Instant) :
    b.standingAfter standing (times ++ [now]) =
      (b.decide (b.standingAfter standing times) now).2 := by
  simp [standingAfter]

theorem length_run (b : Bucket) (standing : Standing) (times : List Instant) :
    (b.run standing times).length = times.length := by
  induction times generalizing standing with
  | nil => rfl
  | cons now later ih => simp [run, ih]

end Bucket

end Admission
