import RanHoneypot.Data.Utf8Laws
import RanHoneypot.Alert.Meta

/-!
# Bounds and secrecy of the event meta

`boundMeta` runs twice, once in `Submit` and once when the alert is written. In the first pass a key
can turn into a secret name or a sensor name after it was checked, since it is sanitized and cut
behind the check. The second pass finds such a key: sanitizing twice is sanitizing once, so there the
keys are checked in the form in which they are written.
-/

namespace RanHoneypot.Alert

open Utf8 List AList

/-! ## Sanitizing -/

variable (input : Meta) {k : Bytes}

variable (s : Bytes) (max : ℕ)

/-- A rune that `sanitizeMeta` writes and leaves alone when it reads it again. -/
def Clean (r : ℕ) : Prop := IsScalar r ∧ sanitizeRune r (encodeRune r).length = r

theorem clean_sanitizeRune {r : ℕ} (hr : IsScalar r) (size : ℕ) : Clean (sanitizeRune r size) := by
  unfold sanitizeRune
  split
  · exact ⟨by decide, by decide⟩
  · split
    · exact ⟨by decide, by decide⟩
    · next hkept =>
      refine ⟨hr, ?_⟩
      have hsize : ¬(r = runeError ∧ (encodeRune r).length ≤ 1) := by
        intro hmalformed
        rw [hmalformed.1] at hmalformed
        exact absurd hmalformed.2 (by decide)
      rw [sanitizeRune, if_neg hsize, if_neg hkept]

/-- What the loop writes for runes that all fit. -/
def sanitizeAll (pairs : List (ℕ × ℕ)) : Bytes :=
  pairs.flatMap fun rune ↦ encodeRune (sanitizeRune rune.1 rune.2)

theorem runeLen_sanitizeRune {rune : ℕ × ℕ} (hrune : IsScalar rune.1) :
    runeLen (sanitizeRune rune.1 rune.2) = (encodeRune (sanitizeRune rune.1 rune.2)).length :=
  runeLen_eq (clean_sanitizeRune hrune rune.2).1

/-- The loop writes the runes up to the first one that does not fit. -/
theorem sanitizeLoop_split {max : ℕ} {pairs : List (ℕ × ℕ)} (hpairs : ∀ p ∈ pairs, IsScalar p.1)
    {written : Bytes} (hwritten : written.length ≤ max) :
    ∃ xs ys, pairs = xs ++ ys ∧ sanitizeLoop max pairs written = written ++ sanitizeAll xs ∧
      (written ++ sanitizeAll xs).length ≤ max ∧
      ∀ rune ∈ ys.head?, max < (written ++ sanitizeAll (xs ++ [rune])).length := by
  induction pairs generalizing written with
  | nil => exact ⟨[], [], rfl, (append_nil _).symm, by simpa [sanitizeAll] using hwritten, nofun⟩
  | cons rune rest ih =>
    rw [forall_mem_cons] at hpairs
    have hlength := runeLen_sanitizeRune hpairs.1
    rw [sanitizeLoop]
    split
    · next hcut =>
      refine ⟨[], rune :: rest, rfl, (append_nil _).symm, by simpa [sanitizeAll] using hwritten, ?_⟩
      intro other hother
      rw [← Option.some.inj hother]
      simp only [sanitizeAll, nil_append, flatMap_singleton, length_append]
      omega
    · next hfits =>
      have hnext : (written ++ encodeRune (sanitizeRune rune.1 rune.2)).length ≤ max := by
        rw [length_append]
        omega
      rcases ih hpairs.2 hnext with ⟨xs, ys, hrest, heq, hbound, hcut⟩
      refine ⟨rune :: xs, ys, by rw [hrest, cons_append], ?_⟩
      simp only [append_assoc] at heq hbound hcut ⊢
      exact ⟨heq, hbound, hcut⟩

theorem sanitizeMeta_split :
    ∃ xs ys, runes s = xs ++ ys ∧ sanitizeMeta s max = sanitizeAll xs ∧
      (sanitizeAll xs).length ≤ max ∧
      ∀ rune ∈ ys.head?, max < (sanitizeAll (xs ++ [rune])).length :=
  sanitizeLoop_split (runes_isScalar s) (Nat.zero_le max)

theorem sanitizeMeta_spec :
    ∃ rs : List ℕ, (∀ r ∈ rs, Clean r) ∧ sanitizeMeta s max = rs.flatMap encodeRune ∧
      (sanitizeMeta s max).length ≤ max := by
  rcases sanitizeMeta_split s max with ⟨xs, ys, hrunes, heq, hlength, _⟩
  refine ⟨xs.map fun rune ↦ sanitizeRune rune.1 rune.2, forall_mem_map.mpr ?_, ?_, heq ▸ hlength⟩
  · intro rune hrune
    exact clean_sanitizeRune (runes_isScalar s rune (hrunes ▸ mem_append_left ys hrune)) _
  · rw [heq, flatMap_map]
    rfl

theorem length_sanitizeMeta_le : (sanitizeMeta s max).length ≤ max := by
  rcases sanitizeMeta_spec s max with ⟨_, _, _, hlength⟩
  exact hlength

theorem Clean.allowed {r : ℕ} (hr : Clean r) :
    (isControl r || inRanges formatRanges r || r == 0x2028 || r == 0x2029) = false := by
  have hsame := hr.2
  rw [sanitizeRune] at hsame
  split at hsame
  · rw [← hsame]
    decide
  · split at hsame
    · rw [← hsame]
      decide
    · next hkept => exact Bool.eq_false_iff.mpr hkept

theorem sanitizeAll_prefix {xs ys : List (ℕ × ℕ)} (h : xs <+: ys) :
    sanitizeAll xs <+: sanitizeAll ys := by
  rcases h with ⟨rest, rfl⟩
  exact ⟨sanitizeAll rest, flatMap_append.symm⟩

/-- No longer run of runes would fit. -/
theorem sanitizeMeta_longest {s : Bytes} {max n : ℕ}
    (hfits : (sanitizeAll ((runes s).take n)).length ≤ max) :
    sanitizeAll ((runes s).take n) <+: sanitizeMeta s max := by
  rcases sanitizeMeta_split s max with ⟨xs, ys, hrunes, heq, _, hcut⟩
  rw [hrunes] at hfits ⊢
  rw [heq]
  by_cases hn : n ≤ xs.length
  · rw [take_append_of_le_length hn]
    exact sanitizeAll_prefix ( take_prefix n xs)
  · cases ys with
    | nil =>
      rw [append_nil]
      exact sanitizeAll_prefix ( take_prefix n xs)
    | cons rune ys =>
      have hlong : xs ++ [rune] <+: (xs ++ rune :: ys).take n := by
        apply prefix_take_iff.mpr
        exact ⟨⟨ys, by simp⟩, by simp; omega⟩
      have hle := ( sanitizeAll_prefix hlong).length_le
      exact absurd (hcut rune rfl) (Nat.not_lt.mpr (hle.trans hfits))

/-- Sanitizing twice is sanitizing once. -/
theorem sanitizeMeta_idempotent : sanitizeMeta (sanitizeMeta s max) max = sanitizeMeta s max := by
  rcases sanitizeMeta_spec s max with ⟨rs, hrs, heq, hlength⟩
  rcases sanitizeMeta_split (sanitizeMeta s max) max with ⟨xs, ys, hrunes, heq', _, hcut⟩
  have hall : sanitizeAll (xs ++ ys) = sanitizeMeta s max := by
    rw [← hrunes, heq, runes_flatMap_encodeRune fun r hr ↦ (hrs r hr).1, sanitizeAll, flatMap_map]
    exact flatMap_congr fun r hr ↦ congrArg encodeRune (hrs r hr).2
  cases ys with
  | nil => rw [heq', ← hall, append_nil]
  | cons rune ys =>
    have hlong := hcut rune rfl
    rw [← hall, append_cons, sanitizeAll, flatMap_append, length_append] at hlength
    exact absurd hlength (by rw [sanitizeAll] at hlong; omega)

/-! ## One pass -/

theorem boundMeta_eq :
    boundMeta input = boundTrapKeys input (trapKeys input) (sensorPart input) := rfl

theorem mem_trapKeys {input : Meta} : k ∈ trapKeys input ↔
    k ∈ input ∧ k ∉ sensorMetaKeys ∧ k ≠ [] ∧ isSecretKey k = false := by
  simp [trapKeys, AList.mem_keys, and_assoc]

theorem lookup_sensorPart (k : Bytes) :
    (sensorPart input).lookup k =
      if k ∈ sensorMetaKeys then
        (input.lookup k).map fun v ↦ sanitizeMeta v maxMetaValueBytes
      else none := by
  suffices hfold : ∀ (entries : List (Sigma fun _ : Bytes ↦ Bytes)) (out : Meta),
      entries.NodupKeys → (entries.foldl (fun out entry ↦
        if entry.1 ∈ sensorMetaKeys then out.insert entry.1 (sanitizeMeta entry.2 maxMetaValueBytes)
        else out) out).lookup k =
      if k ∈ sensorMetaKeys then
        ((entries.dlookup k).map fun v ↦ sanitizeMeta v maxMetaValueBytes).or (out.lookup k)
      else out.lookup k by
    have hentries := hfold input.entries ∅ input.nodupKeys
    simpa [sensorPart, AList.lookup] using hentries
  intro entries
  induction entries with
  | nil => simp
  | cons entry rest ih =>
    intro out hnodup
    rcases entry with ⟨key, value⟩
    rcases nodupKeys_cons.mp hnodup with ⟨hfresh, hrest⟩
    rw [foldl_cons, ih _ hrest]
    by_cases hkey : k = key
    · subst hkey
      have hnone : rest.dlookup k = none := dlookup_eq_none.mpr hfresh
      by_cases hsensor : k ∈ sensorMetaKeys
      · simp [hsensor, hnone]
      · simp [hsensor]
    · have hother (v : Bytes) : (out.insert key v).lookup k = out.lookup k :=
        AList.lookup_insert_ne hkey
      rw [dlookup_cons_ne rest ⟨key, value⟩ hkey]
      by_cases hsensor : key ∈ sensorMetaKeys
      · simp only [if_pos hsensor, hother]
      · simp only [if_neg hsensor]

theorem mem_sensorPart {input : Meta} : k ∈ sensorPart input ↔ k ∈ sensorMetaKeys ∧ k ∈ input := by
  rw [← lookup_isSome, ← lookup_isSome, lookup_sensorPart]
  split
  · next hsensor => simp [hsensor]
  · next hsensor => simp [hsensor]

theorem length_sensorPart_le : (sensorPart input).keys.length ≤ maxMetaKeys := by
  have hsubset : (sensorPart input).keys ⊆ sensorMetaKeys := by
    intro k hk
    exact (mem_sensorPart.mp (mem_keys.mp hk)).1
  calc (sensorPart _).keys.length
      ≤ sensorMetaKeys.length := (subperm_of_subset (keys_nodup _) hsubset).length_le
    _ ≤ maxMetaKeys := by decide

/-- The rule for the loop: what every round keeps while there is room holds in the end. -/
theorem boundTrapKeys_rule {motive : Meta → Prop} {ks : List Bytes}
    (hround : ∀ k ∈ ks, ∀ out : Meta, out.keys.length < maxMetaKeys → motive out →
      motive (boundTrapKey input out k)) {out : Meta} (hout : motive out) :
    motive (boundTrapKeys input ks out) := by
  induction ks generalizing out with
  | nil => exact hout
  | cons k rest ih =>
    have hrest := fun other hother ↦ hround other (mem_cons_of_mem k hother)
    unfold boundTrapKeys
    split
    · exact hout
    · next hroom =>
      have hnext := hround k mem_cons_self out (not_le.mp hroom) hout
      unfold boundTrapKey at hnext
      dsimp only
      split
      · exact ih hrest hout
      · next hkept =>
        rw [if_neg hkept] at hnext
        exact ih hrest hnext

theorem length_insert_le {κ ν : Type*} [DecidableEq κ] (out : AList fun _ : κ ↦ ν) (k : κ) (v : ν) :
    (out.insert k v).keys.length ≤ out.keys.length + 1 := by
  rw [keys_insert]
  exact Nat.succ_le_succ length_erase_le

theorem length_boundMeta_le : (boundMeta input).keys.length ≤ maxMetaKeys := by
  apply boundTrapKeys_rule (motive := fun out ↦ out.keys.length ≤ maxMetaKeys)
  · intro k _ out hroom hout
    unfold boundTrapKey
    split
    · exact hout
    · exact Nat.le_trans (length_insert_le _ ..) hroom
  · exact length_sensorPart_le _

/-- Sensor keys come from the sensor part alone. -/
theorem lookup_boundMeta_sensor (hk : k ∈ sensorMetaKeys) :
    (boundMeta input).lookup k =
      (input.lookup k).map fun v ↦ sanitizeMeta v maxMetaValueBytes := by
  rw [boundMeta_eq]
  apply boundTrapKeys_rule (motive := fun out ↦ out.lookup k =
    (input.lookup k).map fun v ↦ sanitizeMeta v maxMetaValueBytes)
  · intro other _ out _ hout
    unfold boundTrapKey
    split
    · exact hout
    · next hkept =>
      have hne : k ≠ sanitizeMeta other maxMetaKeyBytes := by
        intro heq
        exact hkept (.inr (heq ▸ hk))
      rw [lookup_insert_ne hne]
      exact hout
  · rw [lookup_sensorPart, if_pos hk]

/-- Where a key of the result comes from. -/
def Kept (k : Bytes) : Prop :=
  (k ∈ sensorMetaKeys ∧ k ∈ input) ∨
    ∃ other ∈ trapKeys input, k = sanitizeMeta other maxMetaKeyBytes ∧ k ≠ [] ∧ k ∉ sensorMetaKeys

/-- Every entry of the result has an origin and a sanitized value. -/
theorem lookup_boundMeta {input : Meta} {v : Bytes} (hlookup : (boundMeta input).lookup k = some v) :
    Kept input k ∧ sanitizeMeta v maxMetaValueBytes = v := by
  rw [boundMeta_eq] at hlookup
  refine boundTrapKeys_rule (motive := fun out ↦ ∀ k v, out.lookup k = some v →
    Kept input k ∧ sanitizeMeta v maxMetaValueBytes = v) _ ?_ ?_ k v hlookup
  · intro other hother out _ hout k v hlookup
    unfold boundTrapKey at hlookup
    split at hlookup
    · exact hout k v hlookup
    · next hkept =>
      rw [not_or] at hkept
      by_cases hkey : k = sanitizeMeta other maxMetaKeyBytes
      · rw [hkey, lookup_insert, Option.some.injEq] at hlookup
        refine ⟨.inr ⟨other, hother, hkey, hkey ▸ hkept.1, hkey ▸ hkept.2⟩, ?_⟩
        rw [← hlookup]
        exact sanitizeMeta_idempotent ..
      · rw [lookup_insert_ne hkey] at hlookup
        exact hout k v hlookup
  · intro k v hlookup
    rw [lookup_sensorPart] at hlookup
    split at hlookup
    · next hsensor =>
      rcases Option.map_eq_some_iff.mp hlookup with ⟨raw, hraw, rfl⟩
      refine ⟨.inl ⟨hsensor, ?_⟩, sanitizeMeta_idempotent ..⟩
      rw [← lookup_isSome, hraw]
      rfl
    · cases hlookup

theorem kept_of_mem {input : Meta} (hk : k ∈ boundMeta input) : Kept input k := by
  rcases Option.isSome_iff_exists.mp (lookup_isSome.mpr hk) with ⟨v, hv⟩
  exact (lookup_boundMeta hv).1

/-- Sensor keys are short, not empty and not secret. -/
theorem sensorMetaKeys_plain : ∀ k ∈ sensorMetaKeys, k ≠ [] ∧ k.length ≤ maxMetaKeyBytes ∧
    isSecretKey k = false ∧ sanitizeMeta k maxMetaKeyBytes = k := by decide

theorem sanitizeMeta_of_mem {input : Meta} (hk : k ∈ boundMeta input) :
    sanitizeMeta k maxMetaKeyBytes = k := by
  rcases kept_of_mem hk with ⟨hsensor, _⟩ | ⟨other, _, rfl, _⟩
  · exact (sensorMetaKeys_plain k hsensor).2.2.2
  · exact sanitizeMeta_idempotent ..

/-! ## A second pass -/

/-- In the second pass the keys are checked as they are written. -/
theorem isSecretKey_of_mem_twice {input : Meta} (hk : k ∈ boundMeta (boundMeta input)) :
    isSecretKey k = false := by
  rcases kept_of_mem hk with ⟨hsensor, _⟩ | ⟨other, hother, hkey, _⟩
  · exact (sensorMetaKeys_plain k hsensor).2.2.1
  · rcases mem_trapKeys.mp hother with ⟨hmem, _, _, hplain⟩
    rw [hkey, sanitizeMeta_of_mem hmem]
    exact hplain

/-- With room for all keys, and keys that sanitizing does not change, the loop drops nothing. -/
theorem lookup_boundTrapKeys {ks : List Bytes} (hks : ∀ k ∈ ks,
      sanitizeMeta k maxMetaKeyBytes = k ∧ k ≠ [] ∧ k ∉ sensorMetaKeys) {out : Meta}
    (hroom : out.keys.length + ks.length ≤ maxMetaKeys) (k : Bytes) :
    (boundTrapKeys input ks out).lookup k =
      if k ∈ ks then some (sanitizeMeta ((input.lookup k).getD []) maxMetaValueBytes)
      else out.lookup k := by
  induction ks generalizing out with
  | nil => rfl
  | cons first rest ih =>
    rw [forall_mem_cons] at hks
    rcases hks with ⟨⟨hsame, hne, hsensor⟩, hrest⟩
    rw [length_cons] at hroom
    have hlength := length_insert_le out first
      (sanitizeMeta ((input.lookup first).getD []) maxMetaValueBytes)
    simp only [boundTrapKeys, hsame]
    rw [if_neg (by omega), if_neg (not_or.mpr ⟨hne, hsensor⟩), ih hrest (by omega)]
    by_cases hk : k = first
    · subst hk
      simp
    · simp [hk]

/-- The maps have the same keys, and the same values under the visible ones. -/
structure Agrees (visible : Bytes → Bool) (m m' : Meta) : Prop where
  mem_iff : ∀ k, k ∈ m ↔ k ∈ m'
  lookup : ∀ k, visible k = true → m.lookup k = m'.lookup k

variable {visible shown : Bytes → Bool} {m m' : Meta}

variable (ev : Event) {entry : Bytes × Bytes}

theorem Agrees.keys_perm (h : Agrees visible m m') : m.keys.Perm m'.keys := by
  apply (perm_ext_iff_of_nodup m.keys_nodup m'.keys_nodup).mpr
  intro k
  exact h.mem_iff k

theorem insertionSort_eq_of_perm {l l' : List Bytes} (hperm : l.Perm l') :
    l.insertionSort (· ≤ ·) = l'.insertionSort (· ≤ ·) := by
  have hsorted : (l.insertionSort (· ≤ ·)).Perm (l'.insertionSort (· ≤ ·)) :=
    (perm_insertionSort _ l).trans (hperm.trans (perm_insertionSort _ l').symm)
  refine List.Perm.eq_of_pairwise ?_ (pairwise_insertionSort _ l)
    (pairwise_insertionSort _ l') hsorted
  intro a b _ _ hle hge
  exact Std.Antisymm.antisymm a b hle hge

section

variable (h : Agrees visible m m')

include h

theorem Agrees.trapKeys_eq : trapKeys m = trapKeys m' :=
  insertionSort_eq_of_perm (h.keys_perm.filter _)

theorem Agrees.insert {v v' : Bytes} (hvalue : visible k = true → v = v') :
    Agrees visible (m.insert k v) (m'.insert k v') where
  mem_iff other := by
    rw [mem_insert, mem_insert, h.mem_iff]
  lookup other hother := by
    by_cases hkey : other = k
    · subst hkey
      rw [lookup_insert, lookup_insert, hvalue hother]
    · rw [lookup_insert_ne hkey, lookup_insert_ne hkey]
      exact h.lookup _ hother

theorem Agrees.sensorPart (hsensor : ∀ k ∈ sensorMetaKeys, visible k = true) :
    Agrees shown (sensorPart m) (sensorPart m') where
  mem_iff k := by
    rw [mem_sensorPart, mem_sensorPart, h.mem_iff]
  lookup k _ := by
    rw [lookup_sensorPart, lookup_sensorPart]
    split
    · next hk => rw [h.lookup k (hsensor k hk)]
    · rfl

theorem Agrees.boundTrapKeys {ks : List Bytes}
    (hks : ∀ k ∈ ks, shown (sanitizeMeta k maxMetaKeyBytes) = true → visible k = true)
    {out out' : Meta} (hout : Agrees shown out out') :
    Agrees shown (boundTrapKeys m ks out) (boundTrapKeys m' ks out') := by
  induction ks generalizing out out' with
  | nil => exact hout
  | cons k rest ih =>
    have hrest := fun other hother ↦ hks other (mem_cons_of_mem k hother)
    unfold Alert.boundTrapKeys
    rw [hout.keys_perm.length_eq]
    split
    · exact hout
    · dsimp only
      split
      · exact ih hrest hout
      · apply ih hrest
        apply hout.insert
        intro hshown
        rw [h.lookup k (hks k mem_cons_self hshown)]

/-- One pass hides what was hidden, as long as no visible key comes from a hidden one. -/
theorem Agrees.boundMeta (hsensor : ∀ k ∈ sensorMetaKeys, visible k = true)
    (htrap : ∀ k ∈ trapKeys m, shown (sanitizeMeta k maxMetaKeyBytes) = true → visible k = true) :
    Agrees shown (boundMeta m) (boundMeta m') := by
  rw [boundMeta_eq, boundMeta_eq, ← h.trapKeys_eq]
  exact h.boundTrapKeys htrap (h.sensorPart hsensor)

end

theorem Agrees.buildEventMeta_eq (h : Agrees (fun k ↦ !isSecretKey k) m m') :
    buildEventMeta m = buildEventMeta m' := by
  have hbound : Agrees (fun _ ↦ true) (Alert.boundMeta m) (Alert.boundMeta m') := by
    apply h.boundMeta
    · intro k hk
      rw [(sensorMetaKeys_plain k hk).2.2.1]
      rfl
    · intro k hk _
      rw [(mem_trapKeys.mp hk).2.2.2]
      rfl
  unfold buildEventMeta
  rw [h.keys_perm.length_eq]
  split
  · rfl
  · dsimp only
    rw [insertionSort_eq_of_perm hbound.keys_perm]
    apply map_congr_left
    intro k _
    rw [hbound.lookup k rfl]

/-! ## Both passes -/

/-- The keys and values that the sensor sets. -/
def sensorMeta : List (Bytes × Bytes) :=
  [(ofText "class", ofText ev.cls.toText), (ofText "protocol", ofText ev.info.protocol),
    (ofText "dest_port", ofText (toString ev.info.destPort)),
    (ofText "auth_attempts", ofText (toString ev.info.authAttempts)),
    (ofText "commands", ofText (toString ev.info.commands)),
    (ofText "payload_bytes", ofText (toString ev.info.payloadBytes))]

/-- The merged meta before it is bounded. -/
def mergedMeta : Meta :=
  (sensorMeta ev).foldl (fun m entry ↦ m.insert entry.1 entry.2) ev.meta'

theorem eventMeta_eq : eventMeta ev = boundMeta (mergedMeta ev) := rfl

theorem sensorMeta_keys : (sensorMeta ev).map Prod.fst = sensorMetaKeys := rfl

theorem lookup_foldl_insert {entries : List (Bytes × Bytes)} (hnodup : (entries.map Prod.fst).Nodup)
    (m : Meta) (hentry : entry ∈ entries) :
    (entries.foldl (fun m entry ↦ m.insert entry.1 entry.2) m).lookup entry.1 = some entry.2 := by
  have hother {k : Bytes} : ∀ (entries : List (Bytes × Bytes)) (m : Meta),
      k ∉ entries.map Prod.fst →
      (entries.foldl (fun m entry ↦ m.insert entry.1 entry.2) m).lookup k = m.lookup k := by
    intro entries
    induction entries with
    | nil => exact fun _ _ ↦ rfl
    | cons head rest ih =>
      intro m hk
      rw [map_cons, mem_cons, not_or] at hk
      rw [foldl_cons, ih _ hk.2, lookup_insert_ne hk.1]
  induction entries generalizing m with
  | nil => cases hentry
  | cons head rest ih =>
    rw [map_cons, nodup_cons] at hnodup
    rw [foldl_cons]
    rcases mem_cons.mp hentry with rfl | hrest
    · rw [hother rest _ hnodup.1, lookup_insert]
    · exact ih hnodup.2 _ hrest

theorem lookup_eventMeta {ev : Event} (hentry : entry ∈ sensorMeta ev) :
    (eventMeta ev).lookup entry.1 = some (sanitizeMeta entry.2 maxMetaValueBytes) := by
  have hsensor : entry.1 ∈ sensorMetaKeys := by
    exact mem_map_of_mem hentry
  have hnodup : ((sensorMeta ev).map Prod.fst).Nodup := by
    rw [sensorMeta_keys]
    decide
  rw [eventMeta_eq, lookup_boundMeta_sensor _ hsensor, mergedMeta, lookup_foldl_insert hnodup _ hentry]
  rfl

/-- The list holds what the second pass leaves. -/
theorem mem_buildEventMeta {meta' : Meta} (hne : meta'.keys.length ≠ 0) :
    entry ∈ buildEventMeta meta' ↔ (boundMeta meta').lookup entry.1 = some entry.2 := by
  unfold buildEventMeta
  rw [if_neg hne]
  simp only [mem_map, mem_insertionSort]
  constructor
  · intro hexists
    rcases hexists with ⟨k, hk, rfl⟩
    have hmem := lookup_isSome.mpr (mem_keys.mpr hk)
    rcases Option.isSome_iff_exists.mp hmem with ⟨v, hv⟩
    rw [hv]
    rfl
  · intro hlookup
    refine ⟨entry.1, mem_keys.mp (lookup_isSome.mp ?_), ?_⟩
    · rw [hlookup]
      rfl
    · rw [hlookup]
      rfl

theorem eventMeta_ne_empty : (eventMeta ev).keys.length ≠ 0 := by
  have hlookup : (eventMeta ev).lookup (ofText _) = _ := lookup_eventMeta mem_cons_self
  intro hempty
  have hmem : (ofText "class") ∈ (eventMeta ev).keys := by
    apply AList.mem_keys.mp
    rw [← AList.lookup_isSome, hlookup]
    rfl
  rw [length_eq_zero_iff.mp hempty] at hmem
  cases hmem

/-- Secret values do not reach the list. -/
theorem buildEventMeta_congr {ev : Event} {meta' : Meta}
    (hagrees : Agrees (fun k ↦ !isSecretKey (sanitizeMeta k maxMetaKeyBytes)) ev.meta' meta') :
    buildEventMeta (eventMeta ev) = buildEventMeta (eventMeta { ev with meta' := meta' }) := by
  have hmerged : ∀ (entries : List (Bytes × Bytes)) (m m' : Meta),
      Agrees (fun k ↦ !isSecretKey (sanitizeMeta k maxMetaKeyBytes)) m m' →
      Agrees (fun k ↦ !isSecretKey (sanitizeMeta k maxMetaKeyBytes))
        (entries.foldl (fun m entry ↦ m.insert entry.1 entry.2) m)
        (entries.foldl (fun m entry ↦ m.insert entry.1 entry.2) m') := by
    intro entries
    induction entries with
    | nil => exact fun _ _ h ↦ h
    | cons entry rest ih => exact fun m m' h ↦ ih _ _ (h.insert fun _ ↦ rfl)
  have hpass : Agrees (fun k ↦ !isSecretKey k) (eventMeta ev)
      (eventMeta { ev with meta' := meta' }) := by
    apply (hmerged (sensorMeta ev) _ _ hagrees).boundMeta
    · intro k hk
      rcases sensorMetaKeys_plain k hk with ⟨_, _, hplain, hsame⟩
      rw [hsame, hplain]
      rfl
    · intro k _ hshown
      exact hshown
  exact hpass.buildEventMeta_eq

/-- The meta list of an alert is bounded, carries the sensor's values and no secret, whatever the
trap reports. -/
theorem event_meta_bounded_and_secret_free (ev : Event) :
    let list := buildEventMeta (eventMeta ev)
    list.length ≤ 32 ∧
    (∀ entry ∈ list, entry.1 ≠ [] ∧ entry.1.length ≤ 64 ∧ entry.2.length ≤ 256 ∧
      isSecretKey entry.1 = false) ∧
    (∀ entry ∈ sensorMeta ev, (entry.1, sanitizeMeta entry.2 256) ∈ list) ∧
    ∀ meta', Agrees (fun k ↦ !isSecretKey (sanitizeMeta k 64)) ev.meta' meta' →
      buildEventMeta (eventMeta { ev with meta' := meta' }) = list := by
  intro list
  have hne := eventMeta_ne_empty ev
  refine ⟨?_, ?_, ?_, ?_⟩
  · have hbound : _ ≤ 32 := length_boundMeta_le (eventMeta ev)
    simpa [list, buildEventMeta, hne] using hbound
  · intro entry hentry
    have hlookup := (mem_buildEventMeta hne).mp hentry
    rcases lookup_boundMeta hlookup with ⟨hkept, hvalue⟩
    have hlength : entry.2.length ≤ 256 := by
      rw [← hvalue]
      exact length_sanitizeMeta_le ..
    rcases hkept with ⟨hsensor, _⟩ | ⟨other, hother, hkey, hempty, _⟩
    · rcases sensorMetaKeys_plain _ hsensor with ⟨hempty, hshort, hplain, _⟩
      exact ⟨hempty, hshort, hlength, hplain⟩
    · -- The key was sanitized in the first pass, so it was checked as it is written.
      rcases mem_trapKeys.mp hother with ⟨hmem, _, _, hplain⟩
      have hsame : entry.1 = other := hkey.trans (sanitizeMeta_of_mem hmem)
      refine ⟨hempty, ?_, hlength, hsame ▸ hplain⟩
      rw [hkey]
      exact length_sanitizeMeta_le ..
  · intro entry hentry
    have hsensor : entry.1 ∈ sensorMetaKeys := by
      exact mem_map_of_mem hentry
    apply (mem_buildEventMeta hne).mpr
    rw [lookup_boundMeta_sensor _ hsensor, lookup_eventMeta hentry, Option.map_some,
      sanitizeMeta_idempotent]
    rfl
  · intro meta' hagrees
    exact (buildEventMeta_congr hagrees).symm

end RanHoneypot.Alert
