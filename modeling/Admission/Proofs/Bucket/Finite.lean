import Admission.Proofs.Bucket.Decision

/-!
# Credits stay finite

Whatever finite credits a standing has, those after a decision are finite: what is added to them or taken
from them is small against the steps between the greatest doubles.

## Main results

* `Bucket.decide_isFinite`: a decision leaves finite credits.
* `Bucket.fresh_isFinite`: a new key has finite credits.
-/

namespace Admission

open Binary64

namespace Bucket

variable {s : Standing} (b : Bucket) (now : Instant)

/-- A decision on a standing with finite credits leaves finite credits. -/
theorem decide_isFinite (finite : s.credits.isFinite = true) :
    (b.decide s now).2.credits.isFinite = true := by
  obtain ⟨c, h⟩ := exists_denotes finite
  rcases b with ⟨_ | _, q⟩
  · exact (TokenBucket.decide_spec q now h).2.isFinite
  · exact (LeakyBucket.decide_spec q now h).2.isFinite

/-- A new key has finite credits. -/
theorem fresh_isFinite : (b.fresh now).credits.isFinite = true := by
  rcases b with ⟨_ | _, q⟩
  · exact q.denotes_ceiling.isFinite
  · exact denotes_ofNat_zero.isFinite

end Bucket

end Admission
