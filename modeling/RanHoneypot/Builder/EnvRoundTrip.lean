import RanHoneypot.Builder.EnvFile

/-!
# Env files are read back

A value that the form stored has no line break and neither starts nor ends in white space. Each of the
three ways to quote such a value is undone by the importer, so that every line of an exported file gives
back its variable. The file itself never depends on a secret.
-/

namespace RanHoneypot.Builder

open Js List Record CaseMapping CheckedRegister

/-! ## Quoting is undone -/

variable (v : JsText)

theorem unescapeEnv_cons {u : UInt16} (rest : JsText) (hu : u ≠ backslash) :
    unescapeEnv (u :: rest) = u :: unescapeEnv rest := by
  cases rest with
  | nil => rfl
  | cons v rest => rw [unescapeEnv, if_neg fun h ↦ hu h.1]

theorem unescapeEnv_escaped :
    unescapeEnv (v.flatMap fun u ↦ if isEscaped u then [backslash, u] else [u]) = v := by
  induction v with
  | nil => rfl
  | cons u v ih =>
    rw [flatMap_cons]
    by_cases hu : isEscaped u = true
    · rw [if_pos hu, cons_append, singleton_append, unescapeEnv, if_pos ⟨rfl, hu⟩, ih]
    · have hback : u ≠ backslash := fun heq ↦ hu (by rw [heq]; decide)
      rw [if_neg hu, singleton_append, unescapeEnv_cons _ hback, ih]

theorem unquoteEnv_quoted {q : UInt16} (hq : q = quote ∨ q = apostrophe) (inner : JsText) :
    unquoteEnv (q :: (inner ++ [q])) = if q = quote then unescapeEnv inner else inner := by
  have hlast : (q :: (inner ++ [q])).getLast? = some q := by
    rw [← cons_append, getLast?_append]
    rfl
  have hfirst : some q = some quote ∨ some q = some apostrophe :=
    hq.imp (congrArg some) (congrArg some)
  rw [unquoteEnv, if_pos ⟨by simp, hfirst, by rw [hlast]; rfl⟩]
  simp

theorem isPlainUnit_facts {u : UInt16} (hu : isPlainUnit u = true) :
    isSpace u = false ∧ u ≠ quote ∧ u ≠ apostrophe ∧ u ≠ unit '\n' ∧ u ≠ unit '\r' := by
  have hne : ∀ c, isPlainUnit c = false → u ≠ c := fun c hc heq ↦
    Bool.false_ne_true (hc.symm.trans (heq ▸ hu))
  have hrange : (97 ≤ u.toNat ∧ u.toNat ≤ 122) ∨ (65 ≤ u.toNat ∧ u.toNat ≤ 90) ∨
      (48 ≤ u.toNat ∧ u.toNat ≤ 57) ∨ u.toNat = 95 ∨ u.toNat = 64 ∨ u.toNat = 37 ∨ u.toNat = 43 ∨
      u.toNat = 61 ∨ u.toNat = 58 ∨ u.toNat = 44 ∨ u.toNat = 46 ∨ u.toNat = 47 ∨ u.toNat = 45 := by
    simp only [isPlainUnit, isLowerAlnum, isUpperAlnum, Bool.or_eq_true, Bool.and_eq_true,
      decide_eq_true_eq, beq_iff_eq] at hu
    rcases hu with (hu | hu) | hu
    · omega
    · omega
    · have hmem : u ∈ [64, 37, 43, 61, 58, 44, 46, 47, 45] := contains_iff_mem.mp hu
      simp only [mem_cons, not_mem_nil, or_false] at hmem
      rcases hmem with h | h | h | h | h | h | h | h | h <;> rw [h] <;> decide
  refine ⟨Bool.eq_false_iff.mpr fun hspace ↦ ?_, hne _ (by decide), hne _ (by decide),
    hne _ (by decide), hne _ (by decide)⟩
  simp only [isSpace, Bool.or_eq_true, Bool.and_eq_true, decide_eq_true_eq, contains_iff_mem,
    mem_cons, not_mem_nil, or_false] at hspace
  omega

theorem unquoteEnv_envQuote : unquoteEnv (envQuote v) = v := by
  unfold envQuote
  split
  · next hplain =>
    rw [Bool.and_eq_true, all_eq_true] at hplain
    rw [unquoteEnv, if_neg]
    intro h
    rcases h.2.1 with hhead | hhead
    · exact (isPlainUnit_facts (hplain.2 _ (mem_of_mem_head? hhead))).2.1 rfl
    · exact (isPlainUnit_facts (hplain.2 _ (mem_of_mem_head? hhead))).2.2.1 rfl
  · split
    · rw [unquoteEnv_quoted (.inr rfl), if_neg (by decide)]
    · rw [unquoteEnv_quoted (.inl rfl), if_pos rfl, unescapeEnv_escaped]

theorem trimmed_around {q : UInt16} (inner : JsText) (hq : isSpace q = false) :
    Trimmed (q :: (inner ++ [q])) where
  first u hu := by
    rw [Option.mem_def, head?_cons, Option.some_inj] at hu
    exact hu ▸ hq
  last u hu := by
    rw [← cons_append, getLast?_append] at hu
    have heq : q = u := Option.some.inj hu
    exact heq ▸ hq

theorem trimmed_envQuote : Trimmed (envQuote v) := by
  unfold envQuote
  split
  · next hplain =>
    rw [Bool.and_eq_true, all_eq_true] at hplain
    exact .of_units fun u hu ↦ (isPlainUnit_facts (hplain.2 u hu)).1
  · split
    · exact trimmed_around v (by decide)
    · exact trimmed_around _ (by decide)

theorem envQuote_ne_nil : envQuote v ≠ [] := by
  unfold envQuote
  split
  · next hplain =>
    intro hnil
    rw [hnil] at hplain
    exact absurd hplain (by decide)
  · split <;> exact cons_ne_nil _ _

/-- A text that fits on one line. -/
def OneLine (s : JsText) : Prop := ∀ u ∈ s, u ≠ unit '\n' ∧ u ≠ unit '\r'

theorem OneLine.envQuote {v : JsText} (hv : OneLine v) : OneLine (envQuote v) := by
  unfold Builder.envQuote
  split
  · exact hv
  · split
    · refine forall_mem_cons.mpr ⟨by decide, forall_mem_append.mpr ⟨hv, ?_⟩⟩
      exact forall_mem_singleton.mpr (by decide)
    · refine forall_mem_cons.mpr ⟨by decide, forall_mem_append.mpr
        ⟨fun u hu ↦ ?_, forall_mem_singleton.mpr (by decide)⟩⟩
      rcases mem_flatMap.mp hu with ⟨c, hc, hu⟩
      split at hu
      · rcases mem_cons.mp hu with hu | hu
        · rw [hu]
          decide
        · rw [mem_singleton.mp hu]
          exact hv c hc
      · rw [mem_singleton.mp hu]
        exact hv c hc

theorem oneLine_of_free {v : JsText} (hv : ∀ u ∈ v, isControl u = false) : OneLine v := by
  intro u hu
  have hfree := hv u hu
  constructor <;> intro heq <;> rw [heq] at hfree <;> exact absurd hfree (by decide)

/-! ## Lines are read back -/

variable {cm : CaseMapping} {scan : EnvScan} {key value : JsText}
  {names : List JsText}

section

variable {reg : Register}

theorem isVariable_units (hkey : isVariable key = true) : ∀ u ∈ key, isUpperAlnum u = true := by
  simp only [isVariable, Bool.and_eq_true, List.isPrefixOf_iff_prefix, all_eq_true] at hkey
  rcases hkey.1.1.1 with ⟨rest, hrest⟩
  intro u hu
  rw [← hrest, mem_append] at hu
  rcases hu with hu | hu
  · have hall : (js "RAN_").all isUpperAlnum = true := by decide
    exact all_eq_true.mp hall u hu
  · exact hkey.2 u (hrest ▸ hu)

theorem isVariable_head (hkey : isVariable key = true) : ∃ rest, key = unit 'R' :: rest := by
  simp only [isVariable, Bool.and_eq_true, List.isPrefixOf_iff_prefix] at hkey
  rcases hkey.1.1.1 with ⟨rest, hrest⟩
  exact ⟨js "AN_" ++ rest, hrest.symm⟩

theorem isUpperAlnum_facts {u : UInt16} (hu : isUpperAlnum u = true) :
    isSpace u = false ∧ u ≠ unit '=' ∧ u ≠ unit '\n' ∧ u ≠ unit '\r' := by
  have hplain : isPlainUnit u = true := by simp [isPlainUnit, hu]
  have hfacts := isPlainUnit_facts hplain
  refine ⟨hfacts.1, fun heq ↦ ?_, hfacts.2.2.2.1, hfacts.2.2.2.2⟩
  rw [heq] at hu
  exact absurd hu (by decide)

/-- The line of a variable is taken apart at the equals sign, and the value is unquoted. -/
theorem importLine_assignment (hkey : isVariable key = true) :
    importLine cm reg scan (key ++ unit '=' :: envQuote value) =
      importAssignment cm reg scan key value := by
  have hunits := isVariable_units hkey
  rcases isVariable_head hkey with ⟨rest, hrest⟩
  have htrimmed : Trimmed (key ++ unit '=' :: envQuote value) := by
    refine ⟨fun u hu ↦ ?_, fun u hu ↦ ?_⟩
    · rw [hrest, cons_append, Option.mem_def, head?_cons, Option.some_inj] at hu
      rw [← hu]
      decide
    · have hlast : (key ++ unit '=' :: envQuote value).getLast? = (envQuote value).getLast? := by
        rw [show key ++ unit '=' :: envQuote value = (key ++ [unit '=']) ++ envQuote value by simp,
          getLast?_append_of_ne_nil _ (envQuote_ne_nil _)]
      rw [hlast] at hu
      exact (trimmed_envQuote _).last u hu
  have hempty : ¬ ((key ++ unit '=' :: envQuote value).isEmpty = true ∨
      (key ++ unit '=' :: envQuote value).head? = some (unit '#')) := by
    rw [hrest]
    intro h
    rcases h with h | h
    · cases h
    · exact absurd (Option.some.inj h) (by decide)
  have hexport : (js "export ").isPrefixOf (key ++ unit '=' :: envQuote value) = false := by
    rw [hrest]
    rfl
  have hindex : (key ++ unit '=' :: envQuote value).findIdx? (· == unit '=') = some key.length := by
    rw [findIdx?_append]
    have hnone : key.findIdx? (· == unit '=') = none := by
      rw [findIdx?_eq_none_iff]
      exact fun u hu ↦ beq_false_of_ne (isUpperAlnum_facts (hunits u hu)).2.1
    rw [hnone]
    simp [findIdx?_cons]
  have hlength : key.length = rest.length + 1 := by rw [hrest, length_cons]
  have hsplit : (key ++ unit '=' :: envQuote value).drop (key.length + 1) = envQuote value := by
    rw [← drop_drop, drop_left]
    rfl
  have htrimKey : trim key = key :=
    (Trimmed.of_units fun u hu ↦ (isUpperAlnum_facts (hunits u hu)).1).trim_eq
  unfold importLine
  simp only [htrimmed.trim_eq, if_neg hempty, hexport, Bool.false_eq_true, if_false, hindex, hlength]
  rw [← hlength, hsplit, take_left, htrimKey, (trimmed_envQuote _).trim_eq,
    unquoteEnv_envQuote]

theorem importLine_comment (text : JsText) : importLine cm reg scan (comment text) = scan := by
  have hhead : (trim (comment text)).head? = some (unit '#') := head?_trim_cons _ (by decide)
  rw [importLine]
  simp [hhead]

theorem importLine_nil : importLine cm reg scan [] = scan := rfl

theorem foldl_importLine {env : List (JsText × JsText)} (henv : ∀ e ∈ env, isVariable e.1 = true) :
    (env.flatMap envLines).foldl (importLine cm reg) scan =
      env.foldl (fun scan e ↦ importAssignment cm reg scan e.1 e.2) scan := by
  induction env generalizing scan with
  | nil => rfl
  | cons e env ih =>
    have hline : (envLines e).foldl (importLine cm reg) scan =
        importAssignment cm reg scan e.1 e.2 := by
      have hassignment : importLine cm reg scan (e.1 ++ unit '=' :: envQuote e.2) =
          importAssignment cm reg scan e.1 e.2 :=
        importLine_assignment (henv e mem_cons_self)
      unfold envLines
      split
      · simp [importLine_comment, hassignment]
      · simp [hassignment]
    rw [flatMap_cons, foldl_append, hline, foldl_cons,
      ih fun other hother ↦ henv other (mem_cons_of_mem e hother)]

/-- Known variables are collected, secrets are left out, and nothing is unknown. -/
theorem foldl_importAssignment {env : List (JsText × JsText)}
    (henv : ∀ e ∈ env, e.1 ∈ secretKeys ∨ e.1 = ranTraps ∨
      (resolveSetting cm reg e.1).isSome = true) :
    (env.foldl (fun scan e ↦ importAssignment cm reg scan e.1 e.2) scan).raw =
        scan.raw.setAll (env.filter fun e ↦ !secretKeys.contains e.1) ∧
      (env.foldl (fun scan e ↦ importAssignment cm reg scan e.1 e.2) scan).unknown =
        scan.unknown := by
  induction env generalizing scan with
  | nil => exact ⟨rfl, rfl⟩
  | cons e env ih =>
    have hrest := fun scan ↦ @ih scan fun other hother ↦ henv other (mem_cons_of_mem e hother)
    rw [foldl_cons, filter_cons]
    by_cases hsecret : secretKeys.contains e.1 = true
    · rw [hsecret, (hrest _).1, (hrest _).2,
        importAssignment, if_pos hsecret]
      exact ⟨rfl, rfl⟩
    · have hknown := (henv e mem_cons_self).resolve_left fun hmem ↦
        hsecret (contains_iff_mem.mpr hmem)
      have hassign : importAssignment cm reg scan e.1 e.2 =
          { scan with raw := scan.raw.set e.1 e.2 } := by
        rw [importAssignment, if_neg hsecret, if_pos hknown]
      rw [(hrest _).1, (hrest _).2, hassign, Bool.eq_false_iff.mpr hsecret]
      exact ⟨rfl, rfl⟩

/-! ## Names of traps -/

theorem trapName_units {name : JsText} (hname : isTrapName name = true) :
    name ≠ [] ∧ ∀ u ∈ name, isLowerAlnum u = true := by
  simp only [isTrapName, Bool.and_eq_true, all_eq_true] at hname
  refine ⟨fun hnil ↦ ?_, hname.2⟩
  rw [hnil] at hname
  exact absurd hname.1.1 (by decide)

theorem isLowerAlnum_facts {u : UInt16} (hu : isLowerAlnum u = true) :
    isSpace u = false ∧ u ≠ unit ',' ∧ u ≠ unit '\n' ∧ u ≠ unit '\r' ∧ lowerUnit u = u := by
  have hfacts := isPlainUnit_facts (u := u) (by simp [isPlainUnit, hu])
  refine ⟨hfacts.1, fun heq ↦ ?_, hfacts.2.2.2.1, hfacts.2.2.2.2, ?_⟩
  · rw [heq] at hu
    exact absurd hu (by decide)
  · simp only [isLowerAlnum, Bool.or_eq_true, Bool.and_eq_true, decide_eq_true_eq] at hu
    rw [lowerUnit, if_neg (by omega)]

/-- Names are not changed by lower case. -/
theorem lower_lowerAlnum (cm : CaseMapping) {s : JsText}
    (hs : ∀ u ∈ s, isLowerAlnum u = true ∨ u = unit ',') : cm.lower s = s := by
  have hunit : ∀ u ∈ s, u.toNat < 128 ∧ lowerUnit u = u := by
    intro u hu
    rcases hs u hu with hu | hu
    · refine ⟨?_, (isLowerAlnum_facts hu).2.2.2.2⟩
      simp only [isLowerAlnum, Bool.or_eq_true, Bool.and_eq_true, decide_eq_true_eq] at hu
      omega
    · rw [hu]
      decide
  rw [cm.lower_ascii s fun u hu ↦ (hunit u hu).1]
  calc s.map lowerUnit = s.map id := map_congr_left fun u hu ↦ (hunit u hu).2
    _ = s := map_id s

theorem mem_join_names (hnames : ∀ name ∈ names, isTrapName name = true) {u : UInt16}
    (hu : u ∈ join (unit ',') names) : isLowerAlnum u = true ∨ u = unit ',' := by
  rcases mem_join hu with hu | ⟨name, hname, hu⟩
  · exact .inr hu
  · exact .inl ((trapName_units (hnames name hname)).2 u hu)

theorem trim_map_names (hnames : ∀ name ∈ names, isTrapName name = true) :
    (names.map trim).filter (· != []) = names := by
  have hmap : names.map trim = names := by
    calc names.map trim = names.map id := map_congr_left fun name hname ↦
          (Trimmed.of_units fun u hu ↦
            (isLowerAlnum_facts ((trapName_units (hnames name hname)).2 u hu)).1).trim_eq
      _ = names := map_id names
  rw [hmap, filter_eq_self]
  exact fun name hname ↦ bne_iff_ne.mpr (trapName_units (hnames name hname)).1

/-- The list of traps is read back. -/
theorem splitList_join (cm : CaseMapping) (hnames : ∀ name ∈ names, isTrapName name = true)
    (hne : names ≠ []) : (splitList (join (unit ',') names)).map cm.lower = names := by
  have hsplit : splitRuns (fun u ↦ u == unit ',' || isSpace u) (join (unit ',') names) = names := by
    refine splitRunsFrom_join (by decide) (fun name hname ↦ ?_) hne
    have hunits := trapName_units (hnames name hname)
    refine ⟨hunits.1, fun u hu ↦ ?_⟩
    have hfacts := isLowerAlnum_facts (hunits.2 u hu)
    rw [beq_false_of_ne hfacts.2.1, hfacts.1]
    rfl
  rw [splitList, hsplit, trim_map_names hnames]
  calc names.map cm.lower = names.map id := map_congr_left fun name hname ↦
        lower_lowerAlnum cm fun u hu ↦ .inl ((trapName_units (hnames name hname)).2 u hu)
    _ = names := map_id names

/-- The list of proxied traps is read back; it is never taken for a Boolean. -/
theorem importValue_proxied (hnames : ∀ name ∈ names, isTrapName name = true)
    (hbool : ∀ name ∈ names, name ∉ boolOn ++ boolOff) (hne : names ≠ []) (s : BuilderState) :
    importValue cm reg s (ranProxyProtocol, join (unit ',') names) =
      { s with proxied := names } := by
  have hfirst : ∃ name rest, names = name :: rest := by
    cases names with
    | nil => exact absurd rfl hne
    | cons name rest => exact ⟨name, rest, rfl⟩
  have hsep : ∀ name ∈ names, unit ',' ∉ name := fun name hname hmem ↦
    (isLowerAlnum_facts ((trapName_units (hnames name hname)).2 _ hmem)).2.1 rfl
  have hsplit : (join (unit ',') names).splitOn (unit ',') = names :=
    splitOn_intercalate (unit ',') hsep hne
  have htrim : trim (join (unit ',') names) = join (unit ',') names := by
    refine (Trimmed.of_units fun u hu ↦ ?_).trim_eq
    rcases mem_join_names hnames hu with hu | hu
    · exact (isLowerAlnum_facts hu).1
    · rw [hu]
      decide
  have hlower : cm.lower (join (unit ',') names) = join (unit ',') names :=
    lower_lowerAlnum cm fun u hu ↦ mem_join_names hnames hu
  -- a word of the two lists has no comma, so that it would be the only name
  have hword : ∀ word ∈ boolOn ++ boolOff, join (unit ',') names ≠ word := by
    intro word hmem heq
    have hall : (boolOn ++ boolOff).all (fun word ↦ !word.contains (unit ',') && !word.isEmpty) = true := by
      decide
    have hfree := all_eq_true.mp hall word hmem
    rw [Bool.and_eq_true, Bool.not_eq_true', ← Bool.not_eq_true, contains_iff_mem] at hfree
    have hsingle : word.splitOn (unit ',') = [word] := by
      have hself : ([unit ','].intercalate [word]).splitOn (unit ',') = [word] :=
        splitOn_intercalate (unit ',') (fun l hl ↦ mem_singleton.mp hl ▸ hfree.1) (by simp)
      simpa [List.intercalate] using hself
    rw [heq, hsingle] at hsplit
    exact hbool word (hsplit ▸ mem_singleton_self word) hmem
  have hempty : join (unit ',') names ≠ [] := by
    intro hnil
    rw [hnil] at hsplit
    rcases hfirst with ⟨name, rest, hcons⟩
    have hhead : name = [] := by
      rw [hcons] at hsplit
      exact ((List.cons.inj hsplit).1).symm
    exact (trapName_units (hnames name (hcons ▸ mem_cons_self))).1 hhead
  have hnot : ¬ (boolOn.contains (join (unit ',') names) = true ∨
      boolOff.contains (join (unit ',') names) = true ∨ join (unit ',') names = []) := by
    rw [contains_iff_mem, contains_iff_mem]
    intro h
    rcases h with h | h | h
    · exact hword _ (mem_append_left _ h) rfl
    · exact hword _ (mem_append_right _ h) rfl
    · exact hempty h
  have hne : ranProxyProtocol ≠ ranTraps := by decide
  rw [importValue]
  simp only [if_neg hne, if_true, htrim, hlower, if_neg hnot, hsplit, trim_map_names hnames]

end

variable {reg : CheckedRegister}

/-! ## What is exported -/

/-- A state whose traps are known and whose values were stored by the form. -/
structure Exportable (cm : CaseMapping) (reg : CheckedRegister) (s : BuilderState) : Prop where
  traps_known : ∀ name ∈ s.traps, (findTrap reg.toRegister name).isSome = true
  proxied_known : ∀ name ∈ s.proxied, (findTrap reg.toRegister name).isSome = true
  stored : ∀ e ∈ s.values.entries, Stored cm reg.toRegister e.1 e.2 ∧ e.1 ≠ ranProxyProtocol

theorem get?_withoutSecrets {values : Record JsText} :
    (withoutSecrets values).get? key = if key ∈ secretKeys then none else values.get? key := by
  simp [withoutSecrets, secretKeys, get?_delete]

variable {s s' : BuilderState}

variable {e : JsText × JsText}

theorem get?_effectiveEnv (s : BuilderState) (key : JsText) : (effectiveEnv s).get? key =
    if key = ranProxyProtocol ∧ s.proxied ≠ [] then some (join (unit ',') s.proxied)
    else if key = ranTraps ∧ s.traps ≠ [] then some (join (unit ',') s.traps)
    else (withoutSecrets s.values).get? key := by
  unfold effectiveEnv
  by_cases htraps : s.traps = [] <;> by_cases hproxied : s.proxied = [] <;>
    simp [htraps, hproxied, get?_set]

theorem exported_perm (cm : CaseMapping) (reg : Register) (s : BuilderState) :
    (exportEnv cm reg s).env.Perm (exportRecord cm reg s).entries := by
  have hkeys : (sortKeys cm reg _).Perm (exportRecord cm reg s).keys :=
    sortBy_perm ..
  have hentries : (exportRecord cm reg s).keys.map (fun key ↦
      (key, ((exportRecord cm reg s).get? key).getD [])) = (exportRecord cm reg s).entries := by
    rw [Record.keys, map_map]
    calc (exportRecord cm _ s).entries.map _ = (exportRecord cm _ s).entries.map id := by
          refine map_congr_left fun e he ↦ ?_
          have hget : (exportRecord cm _ s).get? e.1 = some e.2 := get?_eq_some_iff.mpr he
          simp [hget]
      _ = (exportRecord cm _ s).entries := map_id _
  rw [← hentries]
  exact hkeys.map _

theorem mem_exported {reg : Register} :
    e ∈ (exportEnv cm reg s).env ↔ (exportRecord cm reg s).get? e.1 = some e.2 := by
  rw [(exported_perm cm _ s).mem_iff, get?_eq_some_iff]

theorem exported_nodup (cm : CaseMapping) (reg : Register) (s : BuilderState) :
    ((exportEnv cm reg s).env.map Prod.fst).Nodup :=
  ((exported_perm cm reg s).map Prod.fst).nodup_iff.mpr (exportRecord cm reg s).nodup

theorem get?_exportRecord (cm : CaseMapping) (reg : Register) (s : BuilderState) (key : JsText) :
    (exportRecord cm reg s).get? key =
      if crowdsecOn cm reg (effectiveEnv s) = true ∧ key = ranCrowdsecPassword then
        some passwordPlaceholder
      else (effectiveEnv s).get? key := by
  by_cases hon : crowdsecOn cm reg (effectiveEnv s) = true
  · simp [exportRecord, hon, get?_set]
  · simp [exportRecord, hon]

section

variable (hs : Exportable cm reg s) (he : e ∈ (exportEnv cm reg.toRegister s).env)

include hs he

/-- Where an exported variable comes from. -/
theorem exported_cases :
    e = (ranCrowdsecPassword, passwordPlaceholder) ∨
      (e = (ranTraps, join (unit ',') s.traps) ∧ s.traps ≠ []) ∨
      (e = (ranProxyProtocol, join (unit ',') s.proxied) ∧ s.proxied ≠ []) ∨
      (e ∈ s.values.entries ∧ Stored cm reg.toRegister e.1 e.2 ∧ e.1 ≠ ranProxyProtocol) := by
  have hget := mem_exported.mp he
  rw [get?_exportRecord, get?_effectiveEnv] at hget
  split_ifs at hget with hsecret hproxied htraps
  · exact .inl (Prod.ext hsecret.2 (Option.some.inj hget).symm)
  · exact .inr (.inr (.inl ⟨Prod.ext hproxied.1 (Option.some.inj hget).symm, hproxied.2⟩))
  · exact .inr (.inl ⟨Prod.ext htraps.1 (Option.some.inj hget).symm, htraps.2⟩)
  · have hmem : e ∈ s.values.entries := by
      rw [get?_withoutSecrets] at hget
      split_ifs at hget
      exact get?_eq_some_iff.mp hget
    exact .inr (.inr (.inr ⟨hmem, hs.stored e hmem⟩))

theorem exported_facts :
    isVariable e.1 = true ∧ OneLine e.2 ∧
      (e.1 ∈ secretKeys ∨ e.1 = ranTraps ∨ (resolveSetting cm reg.toRegister e.1).isSome = true) := by
  have hnames : ∀ {list : List JsText},
      (∀ name ∈ list, (findTrap reg.toRegister name).isSome = true) → OneLine (join (unit ',') list) := by
    intro list hlist u hu
    rcases mem_join_names (fun name hname ↦ (trap_named (hlist name hname)).1) hu with
      hu | hu
    · have hfacts := isLowerAlnum_facts hu
      exact ⟨hfacts.2.2.1, hfacts.2.2.2.1⟩
    · rw [hu]
      decide
  rcases exported_cases hs he with heq | ⟨heq, -⟩ | ⟨heq, -⟩ | ⟨-, hstored, -⟩
  · have hfree : passwordPlaceholder.all (fun u ↦ !isControl u) = true := by decide
    rw [heq]
    refine ⟨by decide, oneLine_of_free fun u hu ↦ ?_, .inl (mem_singleton_self _)⟩
    simpa using all_eq_true.mp hfree u hu
  · rw [heq]
    exact ⟨show isVariable ranTraps = true by decide, hnames hs.traps_known, .inr (.inl rfl)⟩
  · rw [heq]
    exact ⟨show isVariable ranProxyProtocol = true by decide, hnames hs.proxied_known,
      .inr (.inr resolve_proxy)⟩
  · refine ⟨isVariable_of_known hstored.known, ?_, .inr (.inr hstored.known)⟩
    rw [← hstored.sanitized]
    exact oneLine_of_free (sanitize_free _)

end

/-! ## Files are read back -/

theorem oneLine_comment {text : JsText} (htext : text.all (fun u ↦ !isControl u) = true) :
    OneLine (comment text) := by
  have hall : (comment text).all (fun u ↦ !isControl u) = true := by
    rw [comment, all_append, htext]
    rfl
  exact oneLine_of_free fun u hu ↦ by simpa using all_eq_true.mp hall u hu

theorem oneLine_envLines (hkey : isVariable e.1 = true) (hvalue : OneLine e.2) :
    ∀ line ∈ envLines e, OneLine line := by
  refine forall_mem_append.mpr ⟨?_, forall_mem_singleton.mpr ?_⟩
  · split
    · exact forall_mem_singleton.mpr (oneLine_comment (by decide +kernel))
    · exact forall_mem_nil _
  · refine forall_mem_append.mpr ⟨fun u hu ↦ ?_, forall_mem_cons.mpr ⟨by decide, hvalue.envQuote⟩⟩
    exact (isUpperAlnum_facts (isVariable_units hkey u hu)).2.2

/-- The text of a file, line by line. -/
theorem text_eq (lines : List JsText) :
    join (unit '\n') lines ++ (if lines.isEmpty then [] else [unit '\n']) =
      lines.flatMap fun line ↦ line ++ [unit '\n'] := by
  by_cases hempty : lines = []
  · rw [hempty]
    rfl
  · rw [flatMap_lines hempty, if_neg (by simpa using hempty)]

/-- The scan of an exported file finds its variables. -/
theorem scan_toEnvFile (hs : Exportable cm reg s) :
    ((splitLines (toEnvFile cm reg.toRegister s).text).foldl (importLine cm reg.toRegister)
        ⟨empty, [], []⟩).raw.entries =
      (exportEnv cm reg.toRegister s).env.filter (fun e ↦ !secretKeys.contains e.1) ∧
    ((splitLines (toEnvFile cm reg.toRegister s).text).foldl (importLine cm reg.toRegister)
        ⟨empty, [], []⟩).unknown = [] := by
  have hvariable : ∀ e ∈ (exportEnv cm _ s).env, isVariable _ = true :=
    fun e he ↦ (exported_facts hs he).1
  have hlines : ∀ line ∈ (exportEnv cm reg.toRegister s).env.flatMap envLines, OneLine line := by
    intro line hline
    rcases mem_flatMap.mp hline with ⟨e, he, hline⟩
    have hfacts := exported_facts hs he
    exact oneLine_envLines hfacts.1 hfacts.2.1 _ hline
  have hnodup : ((empty : Record JsText).keys ++ ((exportEnv cm _ s).env.filter
      fun e ↦ !secretKeys.contains e.1).map Prod.fst).Nodup :=
    (exported_nodup cm reg.toRegister s).sublist (filter_sublist.map _)
  have hfold := @foldl_importAssignment cm ⟨empty, [], []⟩ reg.toRegister
    (exportEnv cm _ s).env fun e he ↦ (exported_facts hs he).2.2
  have hscan : ∀ lines, (lines = (exportEnv cm reg.toRegister s).env.flatMap envLines ∨
      lines = comment envQuoteNote :: (exportEnv cm reg.toRegister s).env.flatMap envLines) →
      (splitLines (lines.flatMap fun line ↦ line ++ [unit '\n'])).foldl (importLine cm reg.toRegister)
        ⟨empty, [], []⟩ =
      (exportEnv cm reg.toRegister s).env.foldl
        (fun scan e ↦ importAssignment cm reg.toRegister scan e.1 e.2) ⟨empty, [], []⟩ := by
    intro lines h
    rcases h with h | h
    · rw [h, splitLines_lines hlines]
      simp [importLine_nil, foldl_importLine hvariable]
    · have hall : ∀ line ∈ lines, OneLine line := by
        rw [h]
        exact forall_mem_cons.mpr ⟨oneLine_comment (by decide +kernel), hlines⟩
      rw [splitLines_lines hall, h]
      simp [importLine_nil, importLine_comment, foldl_importLine hvariable]
  unfold toEnvFile
  simp only [text_eq]
  split
  · rw [hscan _ (.inr rfl), hfold.1, hfold.2, entries_setAll hnodup]
    exact ⟨rfl, rfl⟩
  · rw [hscan _ (.inl rfl), hfold.1, hfold.2, entries_setAll hnodup]
    exact ⟨rfl, rfl⟩

/-- The variables that the importer stores as values. -/
def isValueEntry (e : JsText × JsText) : Bool := e.1 != ranTraps && e.1 != ranProxyProtocol

/-- The state after all variables. -/
theorem foldl_importValue {entries : List (JsText × JsText)}
    (hentries : ∀ e ∈ entries, e.1 = ranTraps ∨
      (e = (ranProxyProtocol, join (unit ',') names) ∧ names ≠ []) ∨
      (Stored cm reg.toRegister e.1 e.2 ∧ e.1 ≠ ranProxyProtocol))
    (hnames : ∀ name ∈ names, isTrapName name = true)
    (hbool : ∀ name ∈ names, name ∉ boolOn ++ boolOff) (s : BuilderState) :
    entries.foldl (importValue cm reg.toRegister) s =
      { traps := s.traps, values := s.values.setAll (entries.filter isValueEntry),
        proxied := if ranProxyProtocol ∈ entries.map Prod.fst then names else s.proxied } := by
  induction entries generalizing s with
  | nil => rfl
  | cons e entries ih =>
    have hrest := ih fun other hother ↦ hentries other (mem_cons_of_mem e hother)
    rw [foldl_cons, hrest, filter_cons, map_cons]
    rcases hentries e mem_cons_self with htraps | ⟨hproxy, hne⟩ | ⟨hstored, hkey⟩
    · have hproxy : ranProxyProtocol ≠ e.1 := by
        rw [htraps]
        decide
      have hvalue : isValueEntry e = false := by simp [isValueEntry, htraps]
      have himport : importValue cm reg.toRegister s e = s := by rw [importValue, if_pos htraps]
      simp only [himport, hvalue, Bool.false_eq_true, if_false, mem_cons, hproxy, false_or]
    · have hvalue : isValueEntry e = false := by simp [isValueEntry, hproxy]
      have himport : importValue cm reg.toRegister s e = { s with proxied := names } := by
        rw [hproxy]
        exact importValue_proxied hnames hbool hne s
      have hfirst : ranProxyProtocol = e.1 := by rw [hproxy]
      simp [himport, hvalue, hfirst]
    · have hvalue : isValueEntry e = true := by simp [isValueEntry, hstored.ne_traps, hkey]
      have himport : importValue cm reg.toRegister s e = { s with values := s.values.set e.1 e.2 } := by
        rw [importValue, if_neg hstored.ne_traps, if_neg hkey, hstored.setValue_eq]
      simp only [himport, hvalue, mem_cons, hkey.symm, false_or]
      rfl

/-! ### What the importer makes of the variables that it read -/

/-- The record holds the effective environment, without the secrets. -/
def HoldsEnv (raw : Record JsText) (s : BuilderState) : Prop :=
  ∀ e, e ∈ raw.entries ↔ e.1 ∉ secretKeys ∧ (effectiveEnv s).get? e.1 = some e.2

theorem plain_keys : ranTraps ∉ secretKeys ∧ ranProxyProtocol ∉ secretKeys ∧ ranTraps ≠ ranProxyProtocol := by
  decide

/-- A variable that stands for a value has the value of the state. -/
theorem get?_effectiveEnv_value (htraps : key ≠ ranTraps) (hproxy : key ≠ ranProxyProtocol)
    (hsecret : key ∉ secretKeys) : (effectiveEnv s).get? key = s.values.get? key := by
  rw [get?_effectiveEnv, if_neg fun h ↦ hproxy h.1, if_neg fun h ↦ htraps h.1, get?_withoutSecrets,
    if_neg hsecret]

namespace HoldsEnv

variable {raw : Record JsText}

theorem traps (hraw : HoldsEnv raw s) (hs : Exportable cm reg s) :
    (splitList ((raw.get? ranTraps).getD [])).map cm.lower = s.traps := by
  by_cases hempty : s.traps = []
  · have hnone : raw.get? ranTraps = none := by
      refine Option.eq_none_iff_forall_not_mem.mpr fun value hvalue ↦ ?_
      have hget := ((hraw _).mp (get?_eq_some_iff.mp hvalue)).2
      rw [get?_effectiveEnv, if_neg fun h ↦ plain_keys.2.2 h.1, if_neg fun h ↦ h.2 hempty,
        get?_withoutSecrets] at hget
      exact (hs.stored _ (get?_eq_some_iff.mp hget)).1.ne_traps rfl
    rw [hnone, hempty]
    rfl
  · have hsome : raw.get? ranTraps = some (join (unit ',') s.traps) := by
      refine get?_eq_some_iff.mpr ((hraw _).mpr ⟨plain_keys.1, ?_⟩)
      rw [get?_effectiveEnv, if_neg fun h ↦ plain_keys.2.2 h.1, if_pos ⟨rfl, hempty⟩]
    have hnamed : ∀ name ∈ s.traps, isTrapName _ = true := fun name hname ↦
      (trap_named (hs.traps_known _ hname)).1
    rw [hsome, Option.getD_some, splitList_join cm hnamed hempty]

theorem proxied (hraw : HoldsEnv raw s) :
    (if ranProxyProtocol ∈ raw.entries.map Prod.fst then s.proxied else []) = s.proxied := by
  by_cases hempty : s.proxied = []
  · rw [hempty, ite_self]
  · rw [if_pos]
    refine mem_map.mpr ⟨(ranProxyProtocol, join (unit ',') s.proxied), (hraw _).mpr ?_, rfl⟩
    exact ⟨plain_keys.2.1, by rw [get?_effectiveEnv, if_pos ⟨rfl, hempty⟩]⟩

theorem values (hraw : HoldsEnv raw s) (hs : Exportable cm reg s) (key : JsText) :
    ((empty : Record JsText).setAll (raw.entries.filter isValueEntry)).get? key =
      s.values.get? key := by
  ext value
  have hnodup : ((empty : Record JsText).keys ++
      (raw.entries.filter isValueEntry).map Prod.fst).Nodup :=
    raw.nodup.sublist (filter_sublist.map _)
  rw [get?_eq_some_iff, entries_setAll hnodup]
  change (key, value) ∈ List.filter isValueEntry raw.entries ↔ _
  rw [mem_filter, hraw]
  simp only [isValueEntry, Bool.and_eq_true, bne_iff_ne]
  constructor
  · intro h
    rw [← get?_effectiveEnv_value h.2.1 h.2.2 h.1.1]
    exact h.1.2
  · intro h
    have hstored := hs.stored _ (get?_eq_some_iff.mp h)
    refine ⟨⟨hstored.1.not_secret, ?_⟩, hstored.1.ne_traps, hstored.2⟩
    rw [get?_effectiveEnv_value hstored.1.ne_traps hstored.2 hstored.1.not_secret]
    exact h

end HoldsEnv

theorem holdsEnv_exported {raw : Record JsText}
    (hraw : raw.entries = (exportEnv cm reg.toRegister s).env.filter fun e ↦ !secretKeys.contains e.1) :
    HoldsEnv raw s := by
  intro e
  rw [hraw, mem_filter, mem_exported, get?_exportRecord, and_comm, Bool.not_eq_true',
    ← Bool.not_eq_true, contains_iff_mem]
  refine and_congr_right fun hsecret ↦ ?_
  have hkey : e.1 ≠ ranCrowdsecPassword := fun heq ↦ hsecret (heq ▸ mem_singleton_self _)
  rw [if_neg fun h ↦ hkey h.2]

theorem import_toEnvFile (hs : Exportable cm reg s) :
    (importEnv cm reg.toRegister (toEnvFile cm reg.toRegister s).text).unknown = [] ∧
      sameState (importEnv cm reg.toRegister (toEnvFile cm reg.toRegister s).text).state s = true := by
  have hscan := scan_toEnvFile hs
  generalize hresult : (splitLines (toEnvFile cm _ s).text).foldl
    (importLine cm _) ⟨empty, [], []⟩ = result at hscan
  have hraw := holdsEnv_exported hscan.1
  have hentries : ∀ e ∈ result.raw.entries, e.1 = ranTraps ∨
      (e = (ranProxyProtocol, join (unit ',') s.proxied) ∧ s.proxied ≠ []) ∨
      (Stored cm reg.toRegister e.1 e.2 ∧ e.1 ≠ ranProxyProtocol) := by
    intro e he
    rw [hscan.1, mem_filter] at he
    rcases exported_cases hs he.1 with heq | ⟨heq, -⟩ | hproxy | ⟨-, hstored⟩
    · rw [heq] at he
      exact absurd he.2 (by decide)
    · exact .inl (by rw [heq])
    · exact .inr (.inl hproxy)
    · exact .inr (.inr hstored)
  have hnamed := fun name hname ↦ trap_named (hs.proxied_known name hname)
  refine ⟨?_, ?_⟩
  · rw [importEnv, hresult]
    exact hscan.2
  · rw [importEnv, hresult]
    simp only [foldl_importValue hentries (fun name hname ↦ (hnamed name hname).1)
      fun name hname ↦ (hnamed name hname).2.1]
    exact sameState_of_get? (hraw.traps hs) hraw.proxied (hraw.values hs)

/-! ## Secrets do not matter -/

/-- States that differ in nothing but their secrets. -/
structure SameButSecrets (s s' : BuilderState) : Prop where
  traps : s.traps = s'.traps
  proxied : s.proxied = s'.proxied
  values : ∀ key, key ∉ secretKeys → s.values.get? key = s'.values.get? key

theorem SameButSecrets.get?_effectiveEnv (h : SameButSecrets s s') (key : JsText) :
    (effectiveEnv s).get? key = (effectiveEnv s').get? key := by
  have hvalues : (withoutSecrets s.values).get? key = (withoutSecrets s'.values).get? key := by
    rw [get?_withoutSecrets, get?_withoutSecrets]
    split
    · rfl
    · next hkey => exact h.values _ hkey
  rw [Builder.get?_effectiveEnv, Builder.get?_effectiveEnv, h.traps, h.proxied, hvalues]

theorem SameButSecrets.toEnvFile_eq (h : SameButSecrets s s') (cm : CaseMapping) (reg : Register) :
    toEnvFile cm reg s = toEnvFile cm reg s' := by
  have hon : crowdsecOn cm reg (effectiveEnv s) = crowdsecOn cm reg (effectiveEnv s') := by
    rw [crowdsecOn, crowdsecOn, envGet, envGet, h.get?_effectiveEnv]
  have hget : ∀ key, (exportRecord cm reg s).get? key = (exportRecord cm reg s').get? key := by
    intro key
    rw [get?_exportRecord, get?_exportRecord, hon, h.get?_effectiveEnv]
  have hkeys : sortKeys cm reg (exportRecord cm _ s).keys =
      sortKeys cm reg (exportRecord cm _ s').keys :=
    sortKeys_congr cm reg (exportRecord cm _ s).nodup ((entries_perm hget).map Prod.fst)
  have hexport : exportEnv cm reg s = exportEnv cm reg s' := by
    rw [exportEnv, exportEnv, hkeys, hon]
    simp only [hget]
  rw [toEnvFile, toEnvFile, hexport]

/-! ## Edited states -/

/-- What the form can make of a state. -/
inductive Edited (cm : CaseMapping) (reg : Register) (start : BuilderState) : BuilderState → Prop
  | refl : Edited cm reg start start
  | trap {s : BuilderState} (h : Edited cm reg start s) {name : JsText}
      (hname : (findTrap reg name).isSome = true) (on : Bool) : Edited cm reg start (setTrap s name on)
  | proxied {s : BuilderState} (h : Edited cm reg start s) {name : JsText}
      (hname : (findTrap reg name).isSome = true) (on : Bool) :
      Edited cm reg start (setProxied s name on)
  | value {s : BuilderState} (h : Edited cm reg start s) {key : JsText}
      (hkey : (resolveSetting cm reg key).isSome = true) (hne : key ≠ ranProxyProtocol) (raw : JsText) :
      Edited cm reg start (setValue cm reg s key raw)

section

variable {name : JsText} (hs : Exportable cm reg s)
  (hname : (findTrap reg.toRegister name).isSome = true) (on : Bool)

include hs hname

theorem Exportable.setTrap : Exportable cm reg (setTrap s name on) := by
  unfold Builder.setTrap
  split_ifs
  · exact hs
  · exact ⟨fun other hother ↦ hs.traps_known other (mem_of_mem_filter hother),
      fun other hother ↦ hs.proxied_known other (mem_of_mem_filter hother), hs.stored⟩
  · have htraps := forall_mem_append.mpr ⟨hs.traps_known, forall_mem_singleton.mpr hname⟩
    exact { hs with traps_known := htraps }
  · exact hs

theorem Exportable.setProxied : Exportable cm reg (setProxied s name on) := by
  unfold Builder.setProxied
  split_ifs
  · exact hs
  · exact { hs with
      proxied_known := fun other hother ↦ hs.proxied_known other (mem_of_mem_filter hother) }
  · have hproxied := forall_mem_append.mpr ⟨hs.proxied_known, forall_mem_singleton.mpr hname⟩
    exact { hs with proxied_known := hproxied }
  · exact hs

end

theorem Exportable.setValue (hs : Exportable cm reg s)
    (hkey : (resolveSetting cm reg.toRegister key).isSome = true) (hne : key ≠ ranProxyProtocol)
    (raw : JsText) : Exportable cm reg (setValue cm reg.toRegister s key raw) := by
  refine ⟨?_, ?_, fun e he ↦ ?_⟩
  · rw [setValue_traps]
    exact hs.traps_known
  · rw [setValue_proxied]
    exact hs.proxied_known
  · rcases mem_setValue hkey he with hold | ⟨heq, hstored⟩
    · exact hs.stored e hold
    · exact ⟨hstored, fun hproxy ↦ hne (heq ▸ hproxy)⟩

theorem Edited.exportable {start : BuilderState} (h : Edited cm reg.toRegister start s)
    (hstart : Exportable cm reg start) : Exportable cm reg s := by
  induction h with
  | refl => exact hstart
  | trap _ hname on ih => exact ih.setTrap hname on
  | proxied _ hname on ih => exact ih.setProxied hname on
  | value _ hkey hne raw ih => exact ih.setValue hkey hne _

/-- A file written for a state that the form made of known traps is read back to the same state, and no
file depends on secrets. -/
theorem env_file_round_trip (cm : CaseMapping) (reg : CheckedRegister) (start s : BuilderState)
    (hvalues : start.values = empty)
    (htraps : ∀ name ∈ start.traps, (findTrap reg.toRegister name).isSome = true)
    (hproxied : ∀ name ∈ start.proxied, (findTrap reg.toRegister name).isSome = true)
    (hedited : Edited cm reg.toRegister start s) :
    (importEnv cm reg.toRegister (toEnvFile cm reg.toRegister s).text).unknown = [] ∧
      sameState (importEnv cm reg.toRegister (toEnvFile cm reg.toRegister s).text).state s = true ∧
      ∀ (other : Register) (a b : BuilderState), a.traps = b.traps → a.proxied = b.proxied →
        (∀ key, key ∉ secretKeys → a.values.get? key = b.values.get? key) →
        (toEnvFile cm other a).text = (toEnvFile cm other b).text := by
  have hstart : Exportable cm reg start := by
    refine ⟨htraps, hproxied, fun e he ↦ ?_⟩
    rw [hvalues] at he
    cases he
  have himport := import_toEnvFile (hedited.exportable hstart)
  refine ⟨himport.1, himport.2, fun other a b htraps hproxied hvalues ↦ ?_⟩
  have hsame : SameButSecrets a b := ⟨htraps, hproxied, hvalues⟩
  rw [hsame.toEnvFile_eq cm]

/-- A trap behind a proxy and a value with both kinds of quotes. -/
def quotedState : BuilderState :=
  setValue ascii generatedRegister.toRegister
    (setProxied ⟨[js "http"], empty, []⟩ (js "http") true) (js "RAN_BANNER_SERVICES")
    (js "22=it's \"$5\"\n\\ # end")

theorem env_file_round_trip_quoted :
    (importEnv ascii generatedRegister.toRegister
        (toEnvFile ascii generatedRegister.toRegister quotedState).text).unknown = [] ∧
      sameState (importEnv ascii generatedRegister.toRegister
        (toEnvFile ascii generatedRegister.toRegister quotedState).text).state
        quotedState = true := by
  have hknown : ([js "http"] : List JsText).all (fun name ↦
      (findTrap generatedRegister.toRegister name).isSome) = true := by
    decide +kernel
  have hhttp : (findTrap _ (js "http")).isSome = true :=
    all_eq_true.mp hknown _ (mem_singleton_self _)
  have hround := env_file_round_trip ascii generatedRegister
    ⟨[js "http"], empty, []⟩ quotedState rfl (all_eq_true.mp hknown)
    (fun _ hname ↦ absurd hname not_mem_nil)
    ((Edited.refl.proxied hhttp _).value (by decide +kernel) (by decide) _)
  exact ⟨hround.1, hround.2.1⟩

/-- A trap in capital letters, which the register does not know, comes back in small letters. -/
theorem unknown_trap_changed :
    sameState (importEnv ascii generatedRegister.toRegister
        (toEnvFile ascii generatedRegister.toRegister
          ⟨[js "SSH"], empty, []⟩).text).state ⟨[js "SSH"], empty, []⟩ = false := by
  decide +kernel

end RanHoneypot.Builder
