import Pacing.Decision
import Pacing.Proofs.Scalar.Lawful

/-!
# The floor rate

Whatever a flow has seen, its time base is at least `minRtprop`, so the floor rate is a number. As long as
the round-trip time is finite, the floor rate is positive and finite, too, and every decision at or above
it can be acted on.
-/

namespace Pacing

variable {α : Type} [Scalar α] [LawfulScalar α]

open Scalar

theorem Config.minWindow_mul_msPerSec {c : Config α} (h : c.minCwnd ≠ 0) :
    c.minWindow * msPerSec = ofNat (c.minCwnd.toNat * 1000) := by
  have hpos : 0 < c.minCwnd.toNat := Nat.pos_of_ne_zero fun h0 => h (UInt32.toNat_inj.mp h0)
  have hlt := c.minCwnd.toNat_lt
  exact LawfulScalar.ofNat_mul_ofNat hpos (by decide) (by omega)

namespace Beliefs

variable (b : Beliefs α) {c : Config α}

theorem minRtprop_le_rtprop : minRtprop ≤ b.rtprop := le_max_right _ (number_ofNat (by decide))

theorem zero_lt_rtprop : zero < b.rtprop := lt_of_lt_of_le zero_lt_one b.minRtprop_le_rtprop

theorem isFinite_floorWork (h : c.minCwnd ≠ 0) : isFinite (c.minWindow * msPerSec) = true := by
  have hlt := c.minCwnd.toNat_lt
  rw [Config.minWindow_mul_msPerSec h]
  exact LawfulScalar.isFinite_ofNat (by omega)

theorem one_le_floorWork (h : c.minCwnd ≠ 0) : one ≤ c.minWindow * msPerSec := by
  have hpos : 0 < c.minCwnd.toNat := Nat.pos_of_ne_zero fun h0 => h (UInt32.toNat_inj.mp h0)
  have hlt := c.minCwnd.toNat_lt
  rw [Config.minWindow_mul_msPerSec h]
  exact (LawfulScalar.ofNat_le_ofNat (by decide) (by omega)).mpr (by omega)

theorem zero_le_floorWork (h : c.minCwnd ≠ 0) : zero ≤ c.minWindow * msPerSec :=
  le_trans (le_of_lt zero_lt_one) (one_le_floorWork h)

theorem zero_le_minSendingRate (h : c.minCwnd ≠ 0) : zero ≤ b.minSendingRate c :=
  LawfulScalar.div_nonneg (isFinite_floorWork h) (zero_le_floorWork h) b.zero_lt_rtprop

variable {b}

theorem isFinite_rtprop (h : isFinite b.minRtt = true) : isFinite b.rtprop = true := by
  unfold rtprop Scalar.max
  split
  · exact h
  · split
    · exact h
    · exact LawfulScalar.isFinite_ofNat (by decide)

theorem zero_lt_minSendingRate (h : c.minCwnd ≠ 0) (hfin : isFinite b.minRtt = true) :
    zero < b.minSendingRate c :=
  LawfulScalar.div_pos (isFinite_rtprop hfin) (one_le_floorWork h) (isFinite_floorWork h)
    b.zero_lt_rtprop

theorem isFinite_minSendingRate (h : c.minCwnd ≠ 0) : isFinite (b.minSendingRate c) = true :=
  LawfulScalar.isFinite_of_le_of_le (LawfulScalar.isFinite_ofNat (by decide)) (isFinite_floorWork h)
    (b.zero_le_minSendingRate h)
    (LawfulScalar.div_le_self (isFinite_floorWork h) (zero_le_floorWork h) b.minRtprop_le_rtprop)

end Beliefs

/-! ## Usable decisions -/

/-- The driver can act on a decision: rate and window keep to their floors, and the spacing of sends comes
from a positive rate. -/
structure Decision.Usable (d : Decision α) (c : Config α) (floor : α) : Prop where
  zero_lt_floor : zero < floor
  isFinite_floor : isFinite floor = true
  floor_le_rate : floor ≤ d.sendingRate
  zero_lt_rate : zero < d.sendingRate
  number_rate : isNaN d.sendingRate = false
  minWindow_le_cwnd : c.minWindow ≤ d.cwnd
  number_cwnd : isNaN d.cwnd = false
  intersend_eq : d.intersendTime = msPerSec / d.sendingRate
  number_intersend : isNaN d.intersendTime = false
  zero_le_intersend : zero ≤ d.intersendTime
  intersend_le : d.intersendTime ≤ msPerSec / floor

namespace Decision

variable {b : Beliefs α} {c : Config α} {rate floor : α}

theorem usable_ofRate (hpos : zero < floor) (hfin : isFinite floor = true) (hle : floor ≤ rate) :
    (ofRate rate b c).Usable c floor := by
  have hrate : zero < rate := lt_of_lt_of_le hpos hle
  have hms : isFinite (msPerSec : α) = true := LawfulScalar.isFinite_ofNat (by decide)
  have hms' : zero ≤ (msPerSec : α) :=
    (LawfulScalar.ofNat_le_ofNat (by decide) (by decide)).mpr (by decide)
  have hspace : zero ≤ msPerSec / rate := LawfulScalar.div_nonneg hms hms' hrate
  have hwin : c.minWindow ≤ (ofRate rate b c).cwnd := by
    have hlt := c.minCwnd.toNat_lt
    exact le_max_right _ (number_ofNat (by omega))
  exact {
    zero_lt_floor := hpos
    isFinite_floor := hfin
    floor_le_rate := hle
    zero_lt_rate := hrate
    number_rate := number_right hle
    minWindow_le_cwnd := hwin
    number_cwnd := number_right hwin
    intersend_eq := rfl
    number_intersend := number_right hspace
    zero_le_intersend := hspace
    intersend_le := LawfulScalar.div_le_div_left hms hms' hpos hle }

theorem usable_floor (h : c.minCwnd ≠ 0) (hfin : isFinite b.minRtt = true) :
    (PhaseMachine.floor b c).Usable c (b.minSendingRate c) :=
  usable_ofRate (Beliefs.zero_lt_minSendingRate h hfin) (Beliefs.isFinite_minSendingRate h)
    (le_refl (number_right (b.zero_le_minSendingRate h)))

theorem usable_decision (m : PhaseMachine) (h : c.minCwnd ≠ 0) (hfin : isFinite b.minRtt = true) :
    (m.decision b c).2.Usable c (b.minSendingRate c) :=
  usable_ofRate (Beliefs.zero_lt_minSendingRate h hfin) (Beliefs.isFinite_minSendingRate h)
    (le_max_right _ (number_right (b.zero_le_minSendingRate h)))

end Decision

end Pacing
