import Mathlib.Data.List.AList
import Mathlib.Tactic.FieldSimp
import Mathlib.Tactic.Positivity
import RanHoneypot.Data.GoTime
import RanHoneypot.Data.Metering

/-!
# The rate limit of the UDP traps

`udpRateLimiter` of `ratelimit.go` gives every source a token bucket and keeps one more bucket for all
packets. The table of sources has a cap. A full table is swept of the sources that were idle for so long
that their bucket is full again, and a source for which there is no room is only subject to the bucket
of all packets. Token amounts and the idle period are exact rationals here, clock readings are
nanoseconds.
-/

namespace RanHoneypot.Trap

open TimedRun

def maxRateSources : ℕ := 100000

/-- `Duration.Seconds`. -/
def seconds (d : ℤ) : ℚ := d / 10 ^ 9

structure Bucket where
  tokens : ℚ
  last : ℕ
deriving DecidableEq

namespace Bucket

/-- The tokens after the elapsed time was added. -/
def refilled (b : Bucket) (now : ℕ) (rate burst : ℚ) : ℚ :=
  let elapsed := seconds (since now b.last)
  if 0 < elapsed then
    if burst < b.tokens + elapsed * rate then burst else b.tokens + elapsed * rate
  else b.tokens

def take (b : Bucket) (now : ℕ) (rate burst : ℚ) : Bool × Bucket :=
  let tokens := b.refilled now rate burst
  if tokens < 1 then (false, ⟨tokens, now⟩) else (true, ⟨tokens - 1, now⟩)

end Bucket

structure UdpRateLimiter where
  perSource : ℚ
  burst : ℚ
  global : ℚ
  maxSources : ℕ
  sources : AList fun _ : String ↦ Bucket
  globalB : Bucket
  lastSweep : ℕ

/-- The three settings of the limiter. -/
structure UdpRates where
  perSource : ℤ
  burst : ℤ
  global : ℤ

def orDefault (v default : ℤ) : ℤ := if v ≤ 0 then default else v

def newUdpRateLimiter (cfg : UdpRates) (now : ℕ) : UdpRateLimiter where
  perSource := orDefault cfg.perSource 20
  burst := orDefault cfg.burst 40
  global := orDefault cfg.global 2000
  maxSources := maxRateSources
  sources := ∅
  globalB := ⟨orDefault cfg.global 2000, now⟩
  lastSweep := now

namespace UdpRateLimiter

variable (l : UdpRateLimiter) (source : String) (now : ℕ)

/-- The nanoseconds after which a bucket is full whatever it held. -/
def idle : ℚ := l.burst / l.perSource * 10 ^ 9

/-- Deletes the sources that were idle for the idle period. -/
def sweep : UdpRateLimiter where
  perSource := l.perSource
  burst := l.burst
  global := l.global
  maxSources := l.maxSources
  sources :=
    { entries := l.sources.entries.filter fun entry ↦ decide ((since now entry.2.last : ℚ) < l.idle)
      nodupKeys := List.NodupKeys.sublist List.filter_sublist l.sources.nodupKeys }
  globalB := l.globalB
  lastSweep := now

def tracked : ℕ := l.sources.keys.length

def makeRoom : Bool × UdpRateLimiter :=
  if l.tracked < l.maxSources then (true, l)
  else if since now l.lastSweep < 10 ^ 9 then (false, l)
  else (decide ((l.sweep now).tracked < l.maxSources), l.sweep now)

def setBucket (b : Bucket) : UdpRateLimiter :=
  { l with sources := l.sources.insert source b }

/-- The bucket of a source, which is created if there is room for it. -/
def bucketFor : Option Bucket × UdpRateLimiter :=
  match l.sources.lookup source with
  | some b => (some b, l)
  | none =>
    if (l.makeRoom now).1 then
      (some ⟨l.burst, now⟩, (l.makeRoom now).2.setBucket source ⟨l.burst, now⟩)
    else (none, (l.makeRoom now).2)

def takeGlobal : Bool × UdpRateLimiter :=
  ((l.globalB.take now l.global l.global).1,
    { l with globalB := (l.globalB.take now l.global l.global).2 })

/-- `Allow`, with the clock reading it makes. -/
def allow : Bool × UdpRateLimiter :=
  match l.bucketFor source now with
  | (none, l) => l.takeGlobal now
  | (some b, l) =>
    let taken := b.take now l.perSource l.burst
    if taken.1 then (l.setBucket source taken.2).takeGlobal now
    else (false, l.setBucket source taken.2)

end UdpRateLimiter

/-! ## Buckets -/

namespace Bucket

/-- What a bucket holds at a time, if nothing is taken until then. -/
def level (b : Bucket) (rate burst : ℚ) (now : ℕ) : ℚ :=
  min burst (b.tokens + seconds (since now b.last) * rate)

structure Sound (burst : ℚ) (now : ℕ) (b : Bucket) : Prop where
  nonneg : 0 ≤ b.tokens
  le_burst : b.tokens ≤ burst
  last_le : b.last ≤ now

variable {b : Bucket} {rate burst : ℚ} {now later : ℕ}

theorem Sound.mono (h : b.Sound burst now) (hle : now ≤ later) : b.Sound burst later :=
  ⟨h.nonneg, h.le_burst, h.last_le.trans hle⟩

theorem sound_full (hburst : 0 ≤ burst) (now : ℕ) : (Bucket.mk burst now).Sound burst now :=
  ⟨hburst, le_refl burst, le_refl now⟩

theorem seconds_nonneg {d : ℤ} (hd : 0 ≤ d) : 0 ≤ seconds d :=
  div_nonneg (Int.cast_nonneg hd) (by norm_num)

theorem Sound.elapsed_nonneg (h : b.Sound burst now) : 0 ≤ seconds (since now b.last) := by
  apply seconds_nonneg
  have hlast := h.last_le
  unfold since
  omega

@[simp] theorem level_now (tokens : ℚ) (now : ℕ) :
    (Bucket.mk tokens now).level rate burst now = min burst tokens := by
  simp [level, since, seconds]

theorem Sound.refilled_eq (h : b.Sound burst now) :
    b.refilled now rate burst = b.level rate burst now := by
  simp only [refilled, level]
  split
  · split
    · next hmore => rw [min_eq_left (le_of_lt hmore)]
    · next hless => rw [min_eq_right (not_lt.mp hless)]
  · next hnone =>
    have hzero : seconds (since now b.last) = 0 := le_antisymm (not_lt.mp hnone) h.elapsed_nonneg
    rw [hzero, zero_mul, add_zero, min_eq_right h.le_burst]

theorem Sound.level_nonneg (h : b.Sound burst now) (hrate : 0 ≤ rate) :
    0 ≤ b.level rate burst now := by
  apply le_min
  · exact h.nonneg.trans h.le_burst
  · exact add_nonneg h.nonneg (mul_nonneg h.elapsed_nonneg hrate)

theorem level_le (b : Bucket) (rate burst : ℚ) (now : ℕ) : b.level rate burst now ≤ burst :=
  min_le_left _ _

/-- The level grows by the rate and not past the burst. -/
theorem level_wait (b : Bucket) (hrate : 0 ≤ rate) (hle : now ≤ later) :
    b.level rate burst later ≤ b.level rate burst now + rate / 10 ^ 9 * ((later : ℚ) - now) := by
  have hgap : (0 : ℚ) ≤ rate / 10 ^ 9 * ((later : ℚ) - now) := by
    apply mul_nonneg
    · positivity
    · exact sub_nonneg.mpr (Nat.cast_le.mpr hle)
  have hsplit : seconds (since later b.last) * rate =
      seconds (since now b.last) * rate + rate / 10 ^ 9 * ((later : ℚ) - now) := by
    simp only [seconds, since, Int.cast_sub, Int.cast_natCast]
    ring
  unfold level
  rw [hsplit, ← add_assoc, min_add]
  exact min_le_min_right _ (le_add_of_nonneg_right hgap)

/-- A bucket that was idle for the whole refill time is full. -/
theorem Sound.level_of_idle (h : b.Sound burst now) (hrate : 0 < rate)
    (hidle : burst / rate * 10 ^ 9 ≤ (since now b.last : ℚ)) : b.level rate burst now = burst := by
  have hfull : burst ≤ seconds (since now b.last) * rate := by
    calc burst = burst / rate * 10 ^ 9 / 10 ^ 9 * rate := by field_simp
      _ ≤ seconds (since now b.last) * rate := by
        apply mul_le_mul_of_nonneg_right _ (le_of_lt hrate)
        exact div_le_div_of_nonneg_right hidle (by positivity)
  exact min_eq_left (hfull.trans (le_add_of_nonneg_left h.nonneg))

/-- Taking a token: what is left, and the one taken, were in the bucket. -/
theorem Sound.take_spec (h : b.Sound burst now) (hrate : 0 ≤ rate) :
    (b.take now rate burst).2.Sound burst now ∧
      (b.take now rate burst).2.level rate burst now + ((b.take now rate burst).1.toNat : ℚ) =
        b.level rate burst now := by
  have hlow := h.level_nonneg hrate
  have hhigh := b.level_le rate burst now
  simp only [take, h.refilled_eq]
  split
  · next hless =>
    refine ⟨⟨hlow, hhigh, le_refl _⟩, ?_⟩
    rw [level_now, min_eq_right hhigh, Bool.toNat_false, Nat.cast_zero, add_zero]
  · next hmore =>
    have hone := not_lt.mp hmore
    refine ⟨⟨sub_nonneg.mpr hone, (sub_le_self _ zero_le_one).trans hhigh, le_refl _⟩, ?_⟩
    rw [level_now, min_eq_right ((sub_le_self _ zero_le_one).trans hhigh), Bool.toNat_true,
      Nat.cast_one, sub_add_cancel]

end Bucket

/-! ## The limiter -/

namespace UdpRateLimiter

/-- What a source may still send at a time. A source without a bucket would get a full one. -/
def sourceLevel (l : UdpRateLimiter) (source : String) (now : ℕ) : ℚ :=
  match l.sources.lookup source with
  | none => l.burst
  | some b => b.level l.perSource l.burst now

def globalLevel (l : UdpRateLimiter) (now : ℕ) : ℚ := l.globalB.level l.global l.global now

/-- What holds of a limiter with the limits of `l₀` at a time. -/
structure Sound (l₀ : UdpRateLimiter) (now : ℕ) (l : UdpRateLimiter) : Prop where
  perSource_eq : l.perSource = l₀.perSource
  burst_eq : l.burst = l₀.burst
  global_eq : l.global = l₀.global
  cap_eq : l.maxSources = l₀.maxSources
  perSource_pos : 0 < l.perSource
  burst_nonneg : 0 ≤ l.burst
  global_nonneg : 0 ≤ l.global
  buckets : ∀ source b, l.sources.lookup source = some b → b.Sound l.burst now
  globalB : l.globalB.Sound l.global now
  tracked_le : l.tracked ≤ l.maxSources

variable {l₀ l : UdpRateLimiter} {now later : ℕ}

theorem Sound.mono (h : Sound l₀ now l) (hle : now ≤ later) : Sound l₀ later l :=
  { h with
    buckets := fun source b hb ↦ (h.buckets source b hb).mono hle
    globalB := h.globalB.mono hle }

theorem Sound.sourceLevel_nonneg (h : Sound l₀ now l) (source : String) :
    0 ≤ l.sourceLevel source now := by
  unfold sourceLevel
  split
  · exact h.burst_nonneg
  · next b hb => exact (h.buckets _ b hb).level_nonneg (le_of_lt h.perSource_pos)

theorem sourceLevel_le (l : UdpRateLimiter) (source : String) (now : ℕ) :
    l.sourceLevel source now ≤ l.burst := by
  unfold sourceLevel
  split
  · exact le_refl _
  · exact Bucket.level_le ..

theorem Sound.sourceLevel_wait (h : Sound l₀ now l) (source : String) (hle : now ≤ later) :
    l.sourceLevel source later ≤
      l.sourceLevel source now + l.perSource / 10 ^ 9 * ((later : ℚ) - now) := by
  unfold sourceLevel
  split
  · have hpos := h.perSource_pos
    have hgap : (0 : ℚ) ≤ (later : ℚ) - now := sub_nonneg.mpr (Nat.cast_le.mpr hle)
    exact le_add_of_nonneg_right (mul_nonneg (by positivity) hgap)
  · exact Bucket.level_wait _ (le_of_lt h.perSource_pos) hle

/-! ### Sweeping -/

theorem lookup_sweep_iff (l : UdpRateLimiter) (now : ℕ) (source : String) (b : Bucket) :
    (l.sweep now).sources.lookup source = some b ↔
      l.sources.lookup source = some b ∧ (since now b.last : ℚ) < l.idle := by
  have hmem (table : AList fun _ : String ↦ Bucket) :
      table.lookup source = some b ↔ ⟨source, b⟩ ∈ table.entries := AList.mem_lookup_iff
  rw [hmem, hmem]
  simp [sweep]

theorem tracked_sweep_le (l : UdpRateLimiter) (now : ℕ) : (l.sweep now).tracked ≤ l.tracked := by
  simp only [tracked, AList.keys, List.keys, List.length_map]
  exact List.length_filter_le ..

/-- A swept source would be given the bucket it had. -/
theorem Sound.sourceLevel_sweep (h : Sound l₀ now l) (source : String) :
    (l.sweep now).sourceLevel source now = l.sourceLevel source now := by
  unfold sourceLevel
  cases hlookup : l.sources.lookup source with
  | none =>
    have hnone : (l.sweep now).sources.lookup source = none := by
      rw [Option.eq_none_iff_forall_ne_some]
      intro b hb
      have hsome := ((lookup_sweep_iff l _ _ b).mp hb).1
      cases hlookup.symm.trans hsome
    rw [hnone]
    rfl
  | some b =>
    by_cases hactive : (since now b.last : ℚ) < l.idle
    · have hkept := (lookup_sweep_iff l _ _ b).mpr ⟨hlookup, hactive⟩
      rw [hkept]
      rfl
    · have hnone : (l.sweep now).sources.lookup source = none := by
        rw [Option.eq_none_iff_forall_ne_some]
        intro other hother
        rcases (lookup_sweep_iff l ..).mp hother with ⟨hsome, hless⟩
        have heq : b = other := Option.some.inj (hlookup.symm.trans hsome)
        exact hactive (heq ▸ hless)
      have hfull := (h.buckets _ b hlookup).level_of_idle h.perSource_pos (not_lt.mp hactive)
      rw [hnone]
      exact hfull.symm

theorem Sound.sweep (h : Sound l₀ now l) : Sound l₀ now (l.sweep now) :=
  { perSource_eq := h.perSource_eq
    burst_eq := h.burst_eq
    global_eq := h.global_eq
    cap_eq := h.cap_eq
    perSource_pos := h.perSource_pos
    burst_nonneg := h.burst_nonneg
    global_nonneg := h.global_nonneg
    buckets := fun source b hb ↦ h.buckets source b ((lookup_sweep_iff l now source b).mp hb).1
    globalB := h.globalB
    tracked_le := (tracked_sweep_le l now).trans h.tracked_le }

/-- Making room changes no level, and says yes only if there is room. -/
theorem Sound.makeRoom (h : Sound l₀ now l) :
    Sound l₀ now (l.makeRoom now).2 ∧
      ((l.makeRoom now).1 = true → (l.makeRoom now).2.tracked < (l.makeRoom now).2.maxSources) ∧
      (∀ source, (l.makeRoom now).2.sourceLevel source now = l.sourceLevel source now) ∧
      (l.makeRoom now).2.globalB = l.globalB := by
  unfold UdpRateLimiter.makeRoom
  split
  · next hroom => exact ⟨h, fun _ ↦ hroom, fun _ ↦ rfl, rfl⟩
  · split
    · exact ⟨h, nofun, fun _ ↦ rfl, rfl⟩
    · exact ⟨h.sweep, of_decide_eq_true, h.sourceLevel_sweep, rfl⟩

/-! ### Buckets of sources -/

theorem lookup_setBucket (l : UdpRateLimiter) (source : String) (b : Bucket) (other : String) :
    (l.setBucket source b).sources.lookup other =
      if other = source then some b else l.sources.lookup other := by
  unfold setBucket
  split
  · next heq => rw [heq, AList.lookup_insert]
  · next hne => rw [AList.lookup_insert_ne hne]

theorem Sound.setBucket (h : Sound l₀ now l) (source : String) {b : Bucket}
    (hb : b.Sound l.burst now) (hroom : l.tracked < l.maxSources ∨ source ∈ l.sources) :
    Sound l₀ now (l.setBucket source b) :=
  { h with
    buckets := by
      intro other b' hb'
      rw [lookup_setBucket] at hb'
      split at hb'
      · exact Option.some.inj hb' ▸ hb
      · exact h.buckets _ b' hb'
    tracked_le := by
      have hle : (l.setBucket source b).tracked ≤ (l.sources.keys.erase source).length + 1 := by
        simp only [tracked, UdpRateLimiter.setBucket, AList.keys_insert]
        exact le_refl _
      rcases hroom with hless | hmem
      · have herase := List.length_erase_le (a := source) (l := l.sources.keys)
        exact (hle.trans (Nat.succ_le_succ herase)).trans hless
      · have herase := List.length_erase_of_mem (AList.mem_keys.mp hmem)
        have hpos := List.length_pos_of_mem (AList.mem_keys.mp hmem)
        have hcap := h.tracked_le
        simp only [tracked] at hcap
        change (l.setBucket _ b).tracked ≤ l.maxSources
        omega }

theorem sourceLevel_setBucket (l : UdpRateLimiter) (source : String) (b : Bucket) (other : String)
    (now : ℕ) : (l.setBucket source b).sourceLevel other now =
      if other = source then b.level l.perSource l.burst now else l.sourceLevel other now := by
  unfold sourceLevel
  rw [lookup_setBucket]
  by_cases hother : other = source
  · simp only [if_pos hother]
    rfl
  · simp only [if_neg hother]
    rfl

/-- The bucket that is found or created: it is in the table and changes no level. -/
theorem Sound.bucketFor (h : Sound l₀ now l) (source : String) :
    Sound l₀ now (l.bucketFor source now).2 ∧
      (∀ b, (l.bucketFor source now).1 = some b →
        (l.bucketFor source now).2.sources.lookup source = some b) ∧
      (∀ other, (l.bucketFor source now).2.sourceLevel other now = l.sourceLevel other now) ∧
      (l.bucketFor source now).2.globalB = l.globalB := by
  unfold UdpRateLimiter.bucketFor
  cases hlookup : l.sources.lookup source with
  | some b =>
    refine ⟨h, ?_, fun _ ↦ rfl, rfl⟩
    intro b' hb'
    exact hlookup.trans hb'
  | none =>
    rcases h.makeRoom with ⟨hsound, hroom, hlevel, hglobal⟩
    simp only
    split
    · next hyes =>
      have hburst : l.burst = (l.makeRoom _).2.burst := h.burst_eq.trans hsound.burst_eq.symm
      have hfull : (Bucket.mk l.burst now).Sound (l.makeRoom now).2.burst now :=
        hburst ▸ Bucket.sound_full h.burst_nonneg now
      refine ⟨hsound.setBucket _ hfull (.inl (hroom hyes)), ?_, ?_, hglobal⟩
      · intro b hb
        rw [lookup_setBucket, if_pos rfl]
        exact hb
      · intro other
        rw [sourceLevel_setBucket]
        split
        · next heq =>
          rw [Bucket.level_now, ← hburst, min_self, heq]
          simp only [sourceLevel, hlookup]
        · exact hlevel other
    · exact ⟨hsound, fun b hb ↦ absurd hb (by simp), hlevel, hglobal⟩

/-! ### Allowing a packet -/

/-- What the bucket of all packets keeps and pays for. -/
theorem Sound.takeGlobal (h : Sound l₀ now l) :
    Sound l₀ now (l.takeGlobal now).2 ∧
      (l.takeGlobal now).2.globalLevel now + ((l.takeGlobal now).1.toNat : ℚ) = l.globalLevel now ∧
      ∀ other, (l.takeGlobal now).2.sourceLevel other now = l.sourceLevel other now := by
  rcases h.globalB.take_spec h.global_nonneg with ⟨hsound, hlevel⟩
  exact ⟨{ h with globalB := hsound }, hlevel, fun _ ↦ rfl⟩

/-- A packet is paid for by the bucket of all packets and, if its source is tracked, by the bucket of
its source. The other sources lose nothing. -/
theorem Sound.allow (h : Sound l₀ now l) (source : String) :
    Sound l₀ now (l.allow source now).2 ∧
      (l.allow source now).2.globalLevel now + ((l.allow source now).1.toNat : ℚ) ≤
        l.globalLevel now ∧
      ∀ other, (l.allow source now).2.sourceLevel other now +
        ((((l.allow source now).1 && (l.bucketFor source now).1.isSome) &&
          decide (source = other)).toNat : ℚ) ≤ l.sourceLevel other now := by
  rcases h.bucketFor source with ⟨hsound, hlookup, hlevel, hglobal⟩
  have hglobal' : (l.bucketFor source now).2.globalLevel now = l.globalLevel now := by
    unfold globalLevel
    rw [hglobal, hsound.global_eq, h.global_eq]
  unfold UdpRateLimiter.allow
  generalize l.bucketFor source now = found at hsound hlookup hlevel hglobal' ⊢
  rcases found with ⟨bucket, l'⟩
  cases bucket with
  | none =>
    rcases hsound.takeGlobal with ⟨hsound', hpaid, hkept⟩
    refine ⟨hsound', le_of_eq (hpaid.trans hglobal'), ?_⟩
    intro other
    simp only [Option.isSome_none, Bool.and_false, Bool.false_and, Bool.toNat_false, Nat.cast_zero,
      add_zero]
    exact le_of_eq ((hkept other).trans (hlevel other))
  | some b =>
    have hb : l'.sources.lookup source = some b := hlookup b rfl
    have hmem : source ∈ l'.sources := AList.lookup_isSome.mp (by rw [hb]; rfl)
    rcases (hsound.buckets _ b hb).take_spec (le_of_lt hsound.perSource_pos) with ⟨htaken, hpaid⟩
    have hset := hsound.setBucket source htaken (.inr hmem)
    have hown : l.sourceLevel source now = b.level l'.perSource l'.burst now := by
      rw [← hlevel source]
      simp only [sourceLevel, hb]
    simp only [Option.isSome_some, Bool.and_true]
    split
    · next hyes =>
      rcases hset.takeGlobal with ⟨hsound', hpaid', hkept⟩
      refine ⟨hsound', le_of_eq (hpaid'.trans hglobal'), ?_⟩
      intro other
      rw [hkept, sourceLevel_setBucket]
      by_cases hother : other = source
      · rw [if_pos hother, hother, hown, ← hpaid, hyes]
        gcongr
        exact Bool.toNat_le _
      · have hne : decide (source = other) = false := decide_eq_false (Ne.symm hother)
        rw [if_neg hother, hne, Bool.and_false, Bool.toNat_false, Nat.cast_zero, add_zero]
        exact le_of_eq (hlevel other)
    · next hno =>
      refine ⟨hset, ?_, ?_⟩
      · rw [Bool.toNat_false, Nat.cast_zero, add_zero]
        exact le_of_eq hglobal'
      · intro other
        rw [Bool.false_and, Bool.toNat_false, Nat.cast_zero, add_zero, sourceLevel_setBucket]
        by_cases hother : other = source
        · rw [if_pos hother, hother, hown, ← hpaid]
          exact le_add_of_nonneg_right (Nat.cast_nonneg _)
        · rw [if_neg hother]
          exact le_of_eq (hlevel other)

theorem Sound.globalLevel_wait (h : Sound l₀ now l) (hle : now ≤ later) :
    l.globalLevel later ≤ l.globalLevel now + l.global / 10 ^ 9 * ((later : ℚ) - now) :=
  Bucket.level_wait _ h.global_nonneg hle

end UdpRateLimiter

/-! ## Runs -/

/-- A packet and the clock reading of the call of `Allow` for it. -/
structure Packet where
  source : String
  time : ℕ
deriving DecidableEq

namespace UdpRateLimiter

def step (l : UdpRateLimiter) (p : Packet) : UdpRateLimiter := (l.allow p.source p.time).2

/-- The packet is handled. -/
def admits (l : UdpRateLimiter) (p : Packet) : Bool := (l.allow p.source p.time).1

/-- The packet is handled and comes from `source`, which has a bucket. -/
def admitsTracked (source : String) (l : UdpRateLimiter) (p : Packet) : Bool :=
  l.admits p && (l.bucketFor p.source p.time).1.isSome && decide (p.source = source)

theorem sound_new (cfg : UdpRates) (now : ℕ) :
    Sound (newUdpRateLimiter cfg now) now (newUdpRateLimiter cfg now) := by
  have hpos : ∀ v default : ℤ, 0 < default → (0 : ℚ) < orDefault v default := by
    intro v default hdefault
    rw [Int.cast_pos]
    unfold orDefault
    split
    · exact hdefault
    · omega
  exact
    { perSource_eq := rfl
      burst_eq := rfl
      global_eq := rfl
      cap_eq := rfl
      perSource_pos := hpos _ _ (by decide)
      burst_nonneg := le_of_lt (hpos _ _ (by decide))
      global_nonneg := le_of_lt (hpos _ _ (by decide))
      buckets := fun source b hb ↦ absurd hb (by simp [newUdpRateLimiter])
      globalB := Bucket.sound_full (le_of_lt (hpos _ _ (by decide))) now
      tracked_le := Nat.zero_le _ }

/-- The bucket of all packets pays for every packet that is handled. -/
theorem globalMeter (cfg : UdpRates) (start : ℕ) :
    let l₀ := newUdpRateLimiter cfg start
    Meter Packet.time step admits (Sound l₀) globalLevel (l₀.global / 10 ^ 9) l₀.global where
  rate_nonneg := div_nonneg (sound_new cfg start).global_nonneg (by norm_num)
  nonneg := fun _ _ h ↦ h.globalB.level_nonneg h.global_nonneg
  le_burst := fun _ _ h ↦ h.global_eq ▸ Bucket.level_le _ _ _ _
  wait := fun _ _ _ hle h ↦ ⟨h.mono hle, h.global_eq ▸ h.globalLevel_wait hle⟩
  pays := fun _ p h ↦ ⟨(h.allow p.source).1, (h.allow p.source).2.1⟩

/-- The bucket of a source pays for the packets handled while the source has one. -/
theorem sourceMeter (cfg : UdpRates) (start : ℕ) (source : String) :
    let l₀ := newUdpRateLimiter cfg start
    Meter Packet.time step (admitsTracked source) (Sound l₀) (fun l now ↦ l.sourceLevel source now)
      (l₀.perSource / 10 ^ 9) l₀.burst where
  rate_nonneg := div_nonneg (le_of_lt (sound_new cfg start).perSource_pos) (by norm_num)
  nonneg := fun _ _ h ↦ h.sourceLevel_nonneg source
  le_burst := fun l now h ↦ h.burst_eq ▸ l.sourceLevel_le source now
  wait := fun _ _ _ hle h ↦ ⟨h.mono hle, h.perSource_eq ▸ h.sourceLevel_wait source hle⟩
  pays := fun _ p h ↦ ⟨(h.allow p.source).1, (h.allow p.source).2.2 source⟩

theorem sound_run (cfg : UdpRates) {start finish : ℕ} {packets : List Packet}
    (hclock : Clock Packet.time start packets finish) :
    let l₀ := newUdpRateLimiter cfg start
    Sound l₀ finish (run step l₀ packets) := by
  have halong : Along step (fun _ _ ↦ True) (newUdpRateLimiter cfg start) packets :=
    along_of_forall fun _ _ ↦ trivial
  apply run_invariant _ _ _ hclock halong (sound_new ..)
  · exact fun _ _ _ hle h ↦ h.mono hle
  · exact fun _ p _ h ↦ (h.allow _).1

end UdpRateLimiter

/-- The number of handled packets within `length` seconds from the time `low`, which is in
nanoseconds. -/
def handledWithin (counts : UdpRateLimiter → Packet → Bool) (l : UdpRateLimiter) (low length : ℚ)
    (packets : List Packet) : ℕ :=
  countAlong UdpRateLimiter.step (within Packet.time low (low + length * 10 ^ 9) counts) l packets

/-- For every run of `Allow` with a clock that does not go back: every interval of `length` seconds
sees at most `global` and `global` times `length` handled packets, and of any one source at most
`burst` and `perSource` times `length` of those that were handled while the source had a bucket,
whether or not the bucket was swept in between. The table of sources keeps to its cap at all times. -/
theorem udp_packets_rate_limited (cfg : UdpRates) (start finish : ℕ) (packets : List Packet)
    (hclock : Clock Packet.time start packets finish) :
    let l₀ := newUdpRateLimiter cfg start
    (∀ low length : ℚ, 0 ≤ length →
      (handledWithin UdpRateLimiter.admits l₀ low length packets : ℚ) ≤
        l₀.global + l₀.global * length ∧
      ∀ source, (handledWithin (UdpRateLimiter.admitsTracked source) l₀ low length packets : ℚ) ≤
        l₀.burst + l₀.perSource * length) ∧
      ∀ first rest, packets = first ++ rest →
        (run UdpRateLimiter.step l₀ first).tracked ≤ l₀.maxSources := by
  intro l₀
  have hsound := UdpRateLimiter.sound_new cfg start
  refine ⟨?_, ?_⟩
  · intro low length hlength
    have hle : low ≤ low + length * 10 ^ 9 := le_add_of_nonneg_right (by positivity)
    have hscale (rate : ℚ) : rate / 10 ^ 9 * (low + length * 10 ^ 9 - low) = rate * length := by
      ring
    refine ⟨?_, ?_⟩
    · have hcount := (UdpRateLimiter.globalMeter ..).count_le hclock hsound hle
      rw [hscale] at hcount
      exact hcount
    · intro source
      have hcount := (UdpRateLimiter.sourceMeter _ _ source).count_le hclock hsound hle
      rw [hscale] at hcount
      exact hcount
  · intro first rest hsplit
    rw [hsplit, clock_append] at hclock
    rcases hclock with ⟨middle, hfirst, _⟩
    have hend := UdpRateLimiter.sound_run cfg hfirst
    exact hend.cap_eq ▸ hend.tracked_le

/-- Three packets of one source within a second at a burst of two. -/
theorem udp_packets_rate_limited_three :
    let l₀ := newUdpRateLimiter ⟨1, 2, 5⟩ 0
    (handledWithin (UdpRateLimiter.admitsTracked "10.0.0.1") l₀ 0 1
      [⟨"10.0.0.1", 0⟩, ⟨"10.0.0.1", 10⟩, ⟨"10.0.0.1", 20⟩] : ℚ) ≤ l₀.burst + l₀.perSource * 1 :=
  ((udp_packets_rate_limited ⟨1, 2, 5⟩ 0 20
    [⟨"10.0.0.1", 0⟩, ⟨"10.0.0.1", 10⟩, ⟨"10.0.0.1", 20⟩] (by decide)).1 0 1 (by norm_num)).2
      "10.0.0.1"

end RanHoneypot.Trap
