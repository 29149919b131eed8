import ProgressiveHtml.Document

namespace ProgressiveHtml

/-!
# Configuration — what is kept of a timeout

A timeout is set as a length of time and kept as a number of milliseconds with 64 bits.  What is read
afterwards, and what documents wait, is never longer than what was set.  It is shorter by less than a
millisecond as long as the number has 64 bits; of a longer timeout whole multiples of 2^64 milliseconds are
lost, so that it may come out shorter than a short one.

* `Span.le_iff_toNanos` — lengths of time are compared like their nanoseconds;
* `Config.toNanos_withTimeout` — what is left of a timeout;
* `Config.withTimeout_order_iff` — when the longer of two timeouts stays the longer one.
-/

namespace Span

/-- The nanoseconds do not make up a second. -/
def IsNormal (s : Span) : Prop := s.nanos < 1000000000

/-- The seconds are compared first. -/
instance : LE Span := ⟨fun a b => a.seconds < b.seconds ∨ a.seconds = b.seconds ∧ a.nanos ≤ b.nanos⟩

instance (a b : Span) : Decidable (a ≤ b) := inferInstanceAs (Decidable (_ ∨ _))

instance (s : Span) : Decidable s.IsNormal := inferInstanceAs (Decidable (_ < _))

variable {a b : Span}

theorem le_def : a ≤ b ↔ a.seconds < b.seconds ∨ a.seconds = b.seconds ∧ a.nanos ≤ b.nanos := Iff.rfl

/-- Lengths of time are compared like their nanoseconds. -/
theorem le_iff_toNanos (isNormal : a.IsNormal) (isNormal' : b.IsNormal) :
    a ≤ b ↔ a.toNanos ≤ b.toNanos := by
  rw [le_def, UInt64.lt_iff_toNat_lt, ← UInt64.toNat_inj]
  unfold toNanos
  unfold IsNormal at isNormal isNormal'
  omega

theorem isNormal_ofMillis (ms : UInt64) : (ofMillis ms).IsNormal := by
  have thousand : (1000 : UInt64).toNat = 1000 := rfl
  simp only [IsNormal, ofMillis, UInt64.toNat_mod, thousand]
  omega

/-- The length of so many milliseconds in nanoseconds. -/
theorem toNanos_ofMillis (ms : UInt64) : (ofMillis ms).toNanos = ms.toNat * 1000000 := by
  have thousand : (1000 : UInt64).toNat = 1000 := rfl
  simp only [toNanos, ofMillis, UInt64.toNat_div, UInt64.toNat_mod, thousand]
  omega

/-- The whole milliseconds, and what is left of the nanoseconds. -/
theorem toMillis_le_toNanos (s : Span) :
    s.toMillis * 1000000 ≤ s.toNanos ∧ s.toNanos < s.toMillis * 1000000 + 1000000 := by
  unfold toMillis
  omega

theorem toMillis_mono (isNormal : a.IsNormal) (isNormal' : b.IsNormal) (longer : a ≤ b) :
    a.toMillis ≤ b.toMillis :=
  Nat.div_le_div_right ((le_iff_toNanos isNormal isNormal').1 longer)

/-- There are a thousand times as many milliseconds as seconds. -/
theorem toMillis_lt (isNormal : a.IsNormal) : a.toMillis < 1000 * UInt64.size := by
  have seconds := a.seconds.toNat_lt_size
  unfold IsNormal at isNormal
  unfold toMillis toNanos
  omega

/-- Every number of milliseconds below that is a length of time. -/
theorem exists_toMillis_eq {ms : Nat} (fits : ms < 1000 * UInt64.size) :
    ∃ s : Span, s.IsNormal ∧ s.toMillis = ms ∧ s.toNanos = ms * 1000000 := by
  have seconds : (UInt64.ofNat (ms / 1000)).toNat = ms / 1000 :=
    UInt64.toNat_ofNat_of_lt' (Nat.div_lt_of_lt_mul fits)
  refine ⟨⟨UInt64.ofNat (ms / 1000), ms % 1000 * 1000000⟩, ?_, ?_, ?_⟩
  · show ms % 1000 * 1000000 < 1000000000
    omega
  · simp only [toMillis, toNanos, seconds]
    omega
  · simp only [toNanos, seconds]
    omega

end Span

namespace Config

variable (c : Config) {d short long : Span}

theorem timeout_isNormal : c.timeout.IsNormal := Span.isNormal_ofMillis _

/-- Of a timeout its whole milliseconds are left, up to multiples of 2^64. -/
theorem toNanos_withTimeout (d : Span) :
    (c.withTimeout d).timeout.toNanos = d.toMillis % UInt64.size * 1000000 := by
  rw [timeout, Span.toNanos_ofMillis, withTimeout, UInt64.toNat_ofNat']

/-- The timeout that is read is not longer than the one that was set. -/
theorem withTimeout_le (isNormal : d.IsNormal) : (c.withTimeout d).timeout ≤ d := by
  rw [Span.le_iff_toNanos (timeout_isNormal _) isNormal, toNanos_withTimeout]
  calc d.toMillis % UInt64.size * 1000000
    _ ≤ d.toMillis * 1000000 := Nat.mul_le_mul_right _ (Nat.mod_le _ _)
    _ ≤ d.toNanos := d.toMillis_le_toNanos.1

/-- Less than a millisecond is lost exactly if the number of milliseconds has 64 bits. -/
theorem withTimeout_kept_iff (d : Span) :
    d.toNanos < (c.withTimeout d).timeout.toNanos + 1000000 ↔ d.toMillis < UInt64.size := by
  rw [toNanos_withTimeout]
  obtain ⟨whole, rest⟩ := d.toMillis_le_toNanos
  constructor
  · intro kept
    have below : d.toMillis % UInt64.size < UInt64.size := Nat.mod_lt _ (by decide)
    omega
  · intro fits
    rwa [Nat.mod_eq_of_lt fits]

theorem toMillis_withTimeout (d : Span) :
    (c.withTimeout d).timeout.toMillis = d.toMillis % UInt64.size := by
  rw [Span.toMillis, toNanos_withTimeout, Nat.mul_div_cancel _ (by decide)]

/-- Two timeouts are read in the order of what is left of their milliseconds. -/
theorem withTimeout_le_withTimeout_iff : (c.withTimeout short).timeout ≤ (c.withTimeout long).timeout ↔
    short.toMillis % UInt64.size ≤ long.toMillis % UInt64.size := by
  rw [Span.le_iff_toNanos (timeout_isNormal _) (timeout_isNormal _), toNanos_withTimeout,
    toNanos_withTimeout]
  omega

/-- All longer timeouts are read as longer ones exactly if the milliseconds of the short one are a multiple
    of 2^64, or if there is no multiple between them and the longest timeout. -/
theorem withTimeout_mono_iff (isNormal : short.IsNormal) :
    (∀ long : Span, long.IsNormal → short ≤ long →
        (c.withTimeout short).timeout ≤ (c.withTimeout long).timeout) ↔
      short.toMillis % UInt64.size = 0 ∨ 999 * UInt64.size ≤ short.toMillis := by
  have below := Span.toMillis_lt isNormal
  simp only [withTimeout_le_withTimeout_iff]
  constructor
  · intro kept
    -- Otherwise the next multiple is a timeout too, and nothing is left of it.
    refine Decidable.byContradiction fun lost => ?_
    obtain ⟨left, room⟩ := not_or.1 lost
    let next := (short.toMillis / UInt64.size + 1) * UInt64.size
    have later : short.toMillis < next := Nat.lt_mul_of_div_lt (Nat.lt_succ_self _) (by decide)
    have fits : next < 1000 * UInt64.size := by
      rw [Nat.not_le, Nat.mul_comm] at room
      have turns : short.toMillis / UInt64.size < 999 := Nat.div_lt_of_lt_mul room
      exact Nat.mul_lt_mul_of_pos_right (Nat.succ_lt_succ turns) (by decide)
    obtain ⟨long, isLong, millis, nanos⟩ := Span.exists_toMillis_eq fits
    have longer : short ≤ long := by
      rw [Span.le_iff_toNanos isNormal isLong, nanos]
      have rest := short.toMillis_le_toNanos.2
      omega
    have same := kept long isLong longer
    rw [millis, Nat.mul_mod_left] at same
    omega
  · rintro (none | room) long isLong longer
    · rw [none]
      exact Nat.zero_le _
    · have order := Span.toMillis_mono isNormal isLong longer
      have below' := Span.toMillis_lt isLong
      have turn : short.toMillis / UInt64.size = long.toMillis / UInt64.size := by
        rw [Nat.div_eq_of_lt_le (k := 999) (by omega) (by omega),
          Nat.div_eq_of_lt_le (k := 999) (by omega) (by omega)]
      have whole := Nat.mod_add_div short.toMillis UInt64.size
      have whole' := Nat.mod_add_div long.toMillis UInt64.size
      rw [turn] at whole
      omega

/-- Whatever timeout is set, the one that is read is not longer, neither in the configuration nor in the
    settings of a document; less than a millisecond is lost exactly if its milliseconds have 64 bits, and
    otherwise whole multiples of 2^64 milliseconds.  So the longer of two timeouts stays the longer one as
    long as its milliseconds have 64 bits, and in general exactly if what is left of them is in this order.
    To all longer timeouts this applies only for a multiple of 2^64 milliseconds and behind the last one. -/
theorem withTimeout_order_iff (c : Config) :
    (∀ d : Span, d.IsNormal → (c.withTimeout d).timeout ≤ d ∧
      (d.toNanos < (c.withTimeout d).timeout.toNanos + 1000000 ↔ d.toMillis < UInt64.size) ∧
      (c.withTimeout d).timeout.toMillis + d.toMillis / UInt64.size * UInt64.size = d.toMillis ∧
      ∀ requestId, (Settings.ofConfig (c.withTimeout d) requestId).timeout =
        (c.withTimeout d).timeout.toMillis) ∧
    ∀ short : Span, short.IsNormal →
      (∀ long : Span, long.IsNormal → short ≤ long →
        ((c.withTimeout short).timeout ≤ (c.withTimeout long).timeout ↔
          short.toMillis % UInt64.size ≤ long.toMillis % UInt64.size) ∧
        (long.toMillis < UInt64.size → (c.withTimeout short).timeout ≤ (c.withTimeout long).timeout)) ∧
      ((∀ long : Span, long.IsNormal → short ≤ long →
          (c.withTimeout short).timeout ≤ (c.withTimeout long).timeout) ↔
        short.toMillis % UInt64.size = 0 ∨ 999 * UInt64.size ≤ short.toMillis) := by
  refine ⟨fun d isNormal => ⟨c.withTimeout_le isNormal, c.withTimeout_kept_iff d, ?_, fun _ => rfl⟩,
    fun short isNormal => ⟨fun long isLong longer => ⟨c.withTimeout_le_withTimeout_iff, fun fits => ?_⟩,
      c.withTimeout_mono_iff isNormal⟩⟩
  · rw [toMillis_withTimeout, Nat.mul_comm]
    exact Nat.mod_add_div _ _
  · have order := Span.toMillis_mono isNormal isLong longer
    rw [withTimeout_le_withTimeout_iff, Nat.mod_eq_of_lt fits, Nat.mod_eq_of_lt (Nat.lt_of_le_of_lt order fits)]
    exact order

/-- Nothing is left of 2^64 milliseconds, and of the longest timeout the milliseconds behind the last
    multiple are left: these two stay in order, and so does everything behind the first of them. -/
theorem withTimeout_order_of_longest :
    let short : Span := ⟨18446744073709551, 616000000⟩
    let longest : Span := ⟨18446744073709551615, 999999999⟩
    short.IsNormal ∧ longest.IsNormal ∧ short ≤ longest ∧
      (Config.withTimeout {} short).timeout = ⟨0, 0⟩ ∧
      (Config.withTimeout {} longest).timeout = ⟨18446744073709551, 615000000⟩ ∧
      ∀ long : Span, long.IsNormal → short ≤ long →
        (Config.withTimeout {} short).timeout ≤ (Config.withTimeout {} long).timeout := by
  intro short longest
  have isNormal : short.IsNormal := by decide
  exact ⟨isNormal, by decide, by decide, by decide, by decide,
    ((withTimeout_order_iff {}).2 short isNormal).2.2 (.inl (by decide))⟩

/-- One millisecond more, and nothing is left of the longest timeout that is kept as it is. -/
theorem withTimeout_shortened :
    let short : Span := ⟨18446744073709551, 615000000⟩
    let long : Span := ⟨18446744073709551, 616000000⟩
    short.IsNormal ∧ long.IsNormal ∧ short ≤ long ∧
      (Config.withTimeout {} short).timeout = short ∧ (Config.withTimeout {} long).timeout = ⟨0, 0⟩ ∧
      ¬(Config.withTimeout {} short).timeout ≤ (Config.withTimeout {} long).timeout := by
  decide

end Config

end ProgressiveHtml
