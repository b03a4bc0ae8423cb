import RanHoneypot.Data.GoUpper
import RanHoneypot.Data.Removal
import RanHoneypot.Trap.TelnetIac

/-!
# A printer that speaks PJL

The trap answers the queries of the printer job language and counts everything else as print data. Jobs are
framed by an escape sequence, which is taken out of the stream chunk by chunk. A line that is a command is
reduced to a verb and a category from fixed lists, so that of what the client sent only the text of an ECHO
can come back, and of that only a short printable token.
-/

namespace RanHoneypot.Trap.Pjl

open GoText Removal List Utf8

/-! ## The escape sequence between jobs -/

variable (chunks : List Text) (line what : Text) {c : PjlCommand}

local instance : LawfulBEq Text := inferInstance

def pjlUEL : Text := 0x1b :: ofText "%-12345X"

def stripUEL (b : Text) : Text × Bool := if pjlUEL <:+: b then (remove pjlUEL b, true) else (b, false)

/-- The end of the data that is held back, of at most `n` bytes. -/
def holdLoop (data : Text) : ℕ → Text × Text
  | 0 => (data, [])
  | n + 1 =>
    if pjlUEL.take (n + 1) <:+ data then
      (data.take (data.length - (n + 1)), data.drop (data.length - (n + 1)))
    else holdLoop data n

/-- `uelStripper.strip`: the bytes that are passed on and the next carry. -/
def strip (carry chunk : Text) : Text × Text :=
  let data := (stripUEL (carry ++ chunk)).1
  holdLoop data (min (pjlUEL.length - 1) data.length)

/-- All bytes passed on, and the carry after the last chunk. -/
def stripChunks : Text × Text :=
  chunks.foldl (fun passed chunk ↦ (passed.1 ++ (strip passed.2 chunk).1, (strip passed.2 chunk).2)) ([], [])

/-- The outputs in order, then the result of `flush`. -/
def stripped : Text := (stripChunks chunks).1 ++ (stripChunks chunks).2

theorem escape_notMem : (0x1b : UInt8) ∉ ofText "%-12345X" := by decide

theorem stripUEL_eq (b : Text) : (stripUEL b).1 = remove pjlUEL b := by
  unfold stripUEL
  split
  · rfl
  · next hnone => exact (remove_eq_self hnone).symm

theorem holdLoop_spec {data : Text} {n : ℕ} (hn : n < pjlUEL.length)
    (hlong : ∀ q, Begun pjlUEL q → q ≠ [] → q <:+ data → q.length ≤ n) :
    (holdLoop data n).1 ++ (holdLoop data n).2 = data ∧ Begun pjlUEL (holdLoop data n).2 ∧
      ∀ q, Begun pjlUEL q → q ≠ [] → q <:+ data → (holdLoop data n).2 = q := by
  induction n with
  | zero =>
    have hempty : Begun pjlUEL [] := ⟨List.nil_prefix, by decide⟩
    refine ⟨append_nil _, hempty, fun q hq hne hdata ↦ ?_⟩
    exact absurd (eq_nil_of_length_eq_zero (Nat.le_zero.mp (hlong q hq hne hdata))) hne
  | succ n ih =>
    rw [holdLoop]
    split
    · next hheld =>
      have hlength : (pjlUEL.take _).length = n + 1 := length_take_of_le hn.le
      have hdrop := (suffix_iff_eq_drop.mp hheld).symm
      rw [hlength] at hdrop
      have hbegun : Begun pjlUEL (pjlUEL.take (n + 1)) := by
        refine ⟨List.take_prefix _ _, fun hall ↦ ?_⟩
        rw [hall] at hlength
        omega
      have hne : pjlUEL.take (n + 1) ≠ [] := ne_nil_of_length_pos (by omega)
      refine ⟨take_append_drop _ _, hdrop ▸ hbegun, fun q hq hqne hdata ↦ ?_⟩
      exact hdrop.trans (begun_suffix_unique escape_notMem hbegun hq hne hqne hheld hdata)
    · next hfree =>
      apply ih (Nat.lt_of_succ_lt hn)
      intro q hq hne hdata
      by_contra hlonger
      have hlength : q.length = n + 1 := by
        have hle := hlong q hq hne hdata
        omega
      apply hfree
      rw [← hlength, ← prefix_iff_eq_take.mp hq.1]
      exact hdata

theorem strip_spec (carry chunk : Text) :
    (strip carry chunk).1 ++ (strip carry chunk).2 = remove pjlUEL (carry ++ chunk) ∧
      Begun pjlUEL (strip carry chunk).2 ∧
      ∀ q, Begun pjlUEL q → q ≠ [] → q <:+ remove pjlUEL (carry ++ chunk) →
        (strip carry chunk).2 = q := by
  unfold strip
  rw [stripUEL_eq]
  apply holdLoop_spec
  · exact Nat.lt_of_le_of_lt (Nat.min_le_left ..) (by decide)
  · intro q hq _ hdata
    have hshort : q.length < pjlUEL.length :=
      Nat.lt_of_le_of_ne hq.1.length_le fun hlength ↦ hq.2 (hq.1.eq_of_length hlength)
    have hdata := hdata.length_le
    omega

/-- As long as nothing joins, the outputs are the stream cleaned in one pass. -/
theorem cleaned_stripChunks (hjoin : ¬ pjlUEL <:+: remove pjlUEL chunks.flatten) :
    Cleaned pjlUEL chunks.flatten (stripChunks chunks).1 (stripChunks chunks).2 := by
  induction chunks using List.reverseRecOn with
  | nil =>
    refine ⟨rfl, ⟨List.nil_prefix, by decide⟩, fun q _ hne hq ↦ ?_⟩
    exact absurd (suffix_nil.mp hq) hne
  | append_singleton chunks chunk ih =>
    rw [flatten_concat] at hjoin ⊢
    have hbefore := ih fun hcopy ↦ hjoin (infix_remove_append escape_notMem hcopy _)
    have hspec := strip_spec (stripChunks chunks).2 chunk
    rw [stripChunks, foldl_concat]
    exact hbefore.next escape_notMem hjoin hspec.1 hspec.2.1 hspec.2.2

/-- The outputs are the stream stripped in one piece, free of the sequence, exactly if the stream has no
sequence spread out with whole sequences between its bytes. -/
theorem uel_stripping_iff (chunks : List Text) :
    (stripped chunks = (stripUEL chunks.flatten).1 ∧ ¬ pjlUEL <:+: stripped chunks) ↔
      ¬ ∃ t, Spread pjlUEL pjlUEL t ∧ t ≠ pjlUEL ∧ t <:+: chunks.flatten := by
  have hspread : pjlUEL <:+: remove pjlUEL chunks.flatten ↔
      ∃ t, Spread pjlUEL pjlUEL t ∧ t ≠ pjlUEL ∧ t <:+: chunks.flatten := infix_remove_iff escape_notMem
  rw [stripUEL_eq, ← hspread]
  constructor
  · intro hstripped
    rw [← hstripped.1]
    exact hstripped.2
  · intro hjoin
    have hpieces : stripped chunks = remove pjlUEL chunks.flatten := (cleaned_stripChunks _ hjoin).pieces
    exact ⟨hpieces, by rw [hpieces]; exact hjoin⟩

/-- A sequence inside another one: in one chunk the outer one is left over, in two chunks it disappears. -/
theorem uel_joins :
    stripped [0x1b :: ofText "%-12" ++ pjlUEL ++ ofText "345X"] = pjlUEL ∧
      (stripUEL (0x1b :: ofText "%-12" ++ pjlUEL ++ ofText "345X")).1 = pjlUEL ∧
      stripped [0x1b :: ofText "%-12" ++ pjlUEL, ofText "345X"] = [] := by
  decide +kernel

/-! ## Commands -/

inductive PjlKind where
  | info
  | fs
  | set
  | job
  | other
  deriving DecidableEq

structure PjlCommand where
  kind : PjlKind
  verb : Text
  what : Text
  arg : Text
  deriving DecidableEq

def pjlFSVerbs : List Text :=
  ["FSDIR", "FSUPLOAD", "FSDOWNLOAD", "FSDELETE", "FSMKDIR", "FSQUERY", "FSAPPEND", "FSINIT",
    "FSCOPY"].map ofText

def pjlSetVerbs : List Text :=
  ["SET", "DEFAULT", "INITIALIZE", "RESET", "OPMSG", "STMSG", "DMCMD", "DMINFO", "EXECUTE"].map ofText

def pjlJobVerbs : List Text :=
  ["JOB", "EOJ", "ENTER", "COMMENT", "ECHO", "USTATUS", "USTATUSOFF", "INQUIRE", "DINQUIRE"].map ofText

def pjlInfoCategories : List Text :=
  ["ID", "STATUS", "CONFIG", "VARIABLES", "USTATUS", "MEMORY", "FILESYS", "PAGECOUNT"].map ofText

def pjlMaxEchoBytes : ℕ := 32

/-- What follows the first word and the blanks behind it. -/
def skipWord (rest : Text) : Option Text :=
  match rest.dropWhile fun b ↦ !(ofText " \t").contains b with
  | [] => none
  | blank => some (trimLeft (ofText " \t") blank)

def pjlEchoToken : Text :=
  match (skipWord (trimSpace line)).bind skipWord with
  | none => []
  | some rest => trimSpace (Telnet.printableBounded rest pjlMaxEchoBytes)

/-- Without a result the line is print data. -/
def classifyPJL (upper : UpperTable) (line : Text) : Option PjlCommand :=
  match fields line with
  | [] => none
  | first :: f =>
    if equalFold first [0x40, 0x50, 0x4a, 0x4c] = false then none
    else
      match f with
      | [] => some ⟨.job, ofText "NOP", [], []⟩
      | second :: f =>
        let verb := stringsToUpper upper second
        if verb = ofText "INFO" then
          let what := (f.head?.map (stringsToUpper upper)).getD []
          some ⟨.info, verb, if what ∈ pjlInfoCategories then what else [], []⟩
        else if verb ∈ pjlFSVerbs then some ⟨.fs, verb, [], []⟩
        else if verb ∈ pjlSetVerbs then some ⟨.set, verb, [], []⟩
        else if verb = ofText "ECHO" then some ⟨.job, verb, [], pjlEchoToken line⟩
        else if verb ∈ pjlJobVerbs then some ⟨.job, verb, [], []⟩
        else some ⟨.other, ofText "UNKNOWN", [], []⟩

def pjlFF : Text := ofText "\r\n\x0c"

/-- A text of several lines, ended by a form feed. -/
def page (lines : List String) : Text := join (ofText "\r\n") (lines.map ofText) ++ pjlFF

/-- The answers to INFO, by category. -/
def infoPages : List (String × List String) :=
  [("ID", ["@PJL INFO ID", "\"HP LaserJet M605dn\""]),
    ("STATUS", ["@PJL INFO STATUS", "CODE=10001", "DISPLAY=\"Ready\"", "ONLINE=TRUE"]),
    ("CONFIG", ["@PJL INFO CONFIG", "MODEL=\"HP LaserJet M605dn\"", "SERIAL NUMBER=\"CNB8K12345\"",
      "MEMORY=268435456", "DUPLEX", "PAGE COUNT=1337"]),
    ("VARIABLES", ["@PJL INFO VARIABLES", "COPIES=1 [1 RANGE]", "\t1 - 999", "PAPER=LETTER [3 ENUMERATED]",
      "\tLETTER", "\tLEGAL", "\tA4", "ORIENTATION=PORTRAIT [2 ENUMERATED]", "\tPORTRAIT", "\tLANDSCAPE"]),
    ("USTATUS", ["@PJL USTATUS DEVICE", "CODE=10001", "DISPLAY=\"Ready\"", "ONLINE=TRUE"]),
    ("PAGECOUNT", ["@PJL INFO PAGECOUNT", "1337"]),
    ("FILESYS", ["@PJL INFO FILESYS", "[1 TABLE]", "VOLUME TOTAL SIZE FREE SPACE LOCATION LABEL STATUS",
      "0: 125829120 98566144 RAM DISK ? READ-WRITE"]),
    ("MEMORY", ["@PJL INFO MEMORY", "TOTAL=268435456", "LARGEST=201326592"])]

def infoAnswer : Text :=
  match infoPages.find? fun entry ↦ ofText entry.1 = what with
  | some entry => page entry.2
  | none => page ["@PJL INFO", "?"]

def pjlResponse (c : PjlCommand) : Text :=
  match c.kind with
  | .info => infoAnswer c.what
  | .fs => ofText "@PJL " ++ c.verb ++ ofText " FILEERROR=3" ++ pjlFF
  | .set => ofText "@PJL " ++ c.verb ++ ofText " ?" ++ pjlFF
  | .job =>
    if c.verb = ofText "ECHO" then
      if c.arg = [] then page ["@PJL ECHO"] else ofText "@PJL ECHO " ++ c.arg ++ pjlFF
    else if c.verb = ofText "USTATUS" then
      page ["@PJL USTATUS DEVICE", "CODE=10001", "DISPLAY=\"Ready\"", "ONLINE=TRUE"]
    else if c.verb ∈ [ofText "INQUIRE", ofText "DINQUIRE"] then
      ofText "@PJL " ++ c.verb ++ ofText "\r\n?" ++ pjlFF
    else []
  | .other => page ["@PJL ?"]

/-! ## What an answer can show -/

/-- All verbs that a command can have. -/
def pjlVerbs : List Text :=
  ofText "INFO" :: ofText "NOP" :: ofText "UNKNOWN" :: (pjlFSVerbs ++ pjlSetVerbs ++ pjlJobVerbs)

/-- The kind that goes with a verb. -/
def kindOf (verb : Text) : PjlKind :=
  if verb = ofText "INFO" then .info
  else if verb ∈ pjlFSVerbs then .fs
  else if verb ∈ pjlSetVerbs then .set
  else if verb = ofText "NOP" ∨ verb ∈ pjlJobVerbs then .job
  else .other

/-- What classification makes of a line. -/
structure Confined (c : PjlCommand) : Prop where
  verb : c.verb ∈ pjlVerbs
  what : c.what = [] ∨ c.what ∈ pjlInfoCategories
  kind : c.kind = kindOf c.verb
  silent : c.verb ≠ ofText "ECHO" → c.arg = []
  short : c.arg.length ≤ pjlMaxEchoBytes
  printable : ∀ b ∈ c.arg, Telnet.isPrintable b = true

theorem stripUnits_suffix (units : List Text) (rounds : ℕ) (s : Text) : stripUnits units rounds s <:+ s := by
  induction rounds generalizing s with
  | zero => exact suffix_refl s
  | succ rounds ih =>
    rw [stripUnits]
    split
    · exact suffix_refl s
    · exact (ih _).trans (List.drop_suffix ..)

theorem trimSpace_infix (s : Text) : trimSpace s <:+: s := by
  have hback := stripUnits_suffix ((spaceRunes.map encodeRune).map List.reverse)
    (stripUnits (spaceRunes.map encodeRune) s.length s).length
    (stripUnits (spaceRunes.map encodeRune) s.length s).reverse
  rw [← List.reverse_prefix, reverse_reverse] at hback
  exact hback.isInfix.trans (stripUnits_suffix _ _ s).isInfix

theorem pjlEchoToken_spec : (pjlEchoToken line).length ≤ pjlMaxEchoBytes ∧
    ∀ b ∈ pjlEchoToken line, Telnet.isPrintable b = true := by
  unfold pjlEchoToken
  split
  · exact ⟨Nat.zero_le _, fun b hb ↦ absurd hb not_mem_nil⟩
  · next rest _ =>
    rw [Telnet.printableBounded_eq]
    have hpart := trimSpace_infix ((rest.filter Telnet.isPrintable).take pjlMaxEchoBytes)
    refine ⟨hpart.length_le.trans (length_take_le ..), fun b hb ↦ ?_⟩
    exact (mem_filter.mp (mem_of_mem_take (hpart.subset hb))).2

/-- A command without a token. -/
theorem confined_plain {kind : PjlKind} {verb what : Text} (hverb : verb ∈ pjlVerbs)
    (hwhat : what = [] ∨ what ∈ pjlInfoCategories) (hkind : kind = kindOf verb) :
    Confined ⟨kind, verb, what, []⟩ :=
  ⟨hverb, hwhat, hkind, fun _ ↦ rfl, Nat.zero_le _, fun _ hb ↦ absurd hb not_mem_nil⟩

theorem confined_classifyPJL {upper : UpperTable} {line : Text}
    (hc : classifyPJL upper line = some c) : Confined c := by
  have hmem : ∀ {verb : Text}, verb ∈ pjlFSVerbs ++ pjlSetVerbs ++ pjlJobVerbs → verb ∈ pjlVerbs :=
    fun h ↦ mem_cons_of_mem _ (mem_cons_of_mem _ (mem_cons_of_mem _ h))
  unfold classifyPJL at hc
  split at hc
  · cases hc
  split at hc
  · cases hc
  split at hc
  · cases hc
    exact confined_plain (by decide +kernel) (.inl rfl) (by decide +kernel)
  dsimp only at hc
  split at hc
  · next hinfo =>
    cases hc
    refine confined_plain (by rw [hinfo]; exact mem_cons_self) ?_ (by rw [kindOf, if_pos hinfo])
    split
    · next hwhat => exact .inr hwhat
    · exact .inl rfl
  next hinfo =>
  split at hc
  · next hfs =>
    cases hc
    refine confined_plain (hmem ?_) (.inl rfl) (by rw [kindOf, if_neg hinfo, if_pos hfs])
    exact mem_append_left _ (mem_append_left _ hfs)
  next hfs =>
  split at hc
  · next hset =>
    cases hc
    refine confined_plain (hmem ?_) (.inl rfl) (by rw [kindOf, if_neg hinfo, if_neg hfs, if_pos hset])
    exact mem_append_left _ (mem_append_right _ hset)
  next hset =>
  split at hc
  · next hecho =>
    cases hc
    have htoken := pjlEchoToken_spec line
    refine ⟨?_, .inl rfl, ?_, fun hne ↦ absurd hecho hne, htoken.1, htoken.2⟩
    · show stringsToUpper upper _ ∈ pjlVerbs
      rw [hecho]
      decide +kernel
    · show PjlKind.job = kindOf (stringsToUpper ..)
      rw [hecho]
      decide +kernel
  split at hc
  · next hjob =>
    cases hc
    refine confined_plain (hmem (mem_append_right _ hjob)) (.inl rfl) ?_
    rw [kindOf, if_neg hinfo, if_neg hfs, if_neg hset, if_pos (.inr hjob)]
  · cases hc
    exact confined_plain (by decide +kernel) (.inl rfl) (by decide +kernel)

/-- The answer by verb, category and token. -/
def answer (verb what token : Text) : Text :=
  pjlResponse ⟨kindOf verb, verb, what, if verb = ofText "ECHO" then token else []⟩

theorem pjlResponse_eq_answer (hc : Confined c) : pjlResponse c = answer c.verb c.what c.arg := by
  have harg : (if c.verb = ofText "ECHO" then c.arg else []) = c.arg := by
    split
    · rfl
    · next hne => exact (hc.silent hne).symm
  rw [answer, harg, ← hc.kind]

theorem escape_notMem_page {lines : List String}
    (hlines : (lines.all fun line ↦ (ofText line).all (· ≠ 0x1b)) = true) : 0x1b ∉ page lines := by
  rw [page, mem_append, not_or]
  refine ⟨notMem_join (by decide) fun part hpart hesc ↦ ?_, by decide⟩
  rcases mem_map.mp hpart with ⟨line, hline, htext⟩
  rw [← htext] at hesc
  exact absurd rfl (of_decide_eq_true (all_eq_true.mp (all_eq_true.mp hlines _ hline) _ hesc))

theorem escape_notMem_infoAnswer : 0x1b ∉ infoAnswer what := by
  have hpages : (infoPages.all fun entry ↦
      entry.2.all fun line ↦ (ofText line).all (· ≠ 0x1b)) = true := by decide +kernel
  unfold infoAnswer
  split
  · next entry hentry =>
    exact escape_notMem_page (all_eq_true.mp hpages _ (mem_of_find?_eq_some hentry))
  · exact escape_notMem_page (by decide)

/-- No escape byte comes back. -/
theorem escape_notMem_pjlResponse (hc : Confined c) : 0x1b ∉ pjlResponse c := by
  have hverbs : (pjlVerbs.all fun verb ↦ verb.all (· ≠ 0x1b)) = true := by decide +kernel
  have hverb : 0x1b ∉ c.verb := fun hesc ↦ absurd rfl (of_decide_eq_true
    (all_eq_true.mp (all_eq_true.mp hverbs _ hc.verb) _ hesc))
  have harg : 0x1b ∉ c.arg := fun hesc ↦ absurd (hc.printable _ hesc) (by decide)
  have haround : ∀ {front middle back : Text}, (front.all (· ≠ 0x1b)) = true → 0x1b ∉ middle →
      (back.all (· ≠ 0x1b)) = true → 0x1b ∉ front ++ middle ++ back ++ pjlFF := by
    intro front middle back hfront hmiddle hback
    have hclean : ∀ {text : Text}, (text.all (· ≠ 0x1b)) = true → 0x1b ∉ text :=
      fun htext hesc ↦ absurd rfl (of_decide_eq_true (all_eq_true.mp htext _ hesc))
    simp only [mem_append, not_or]
    exact ⟨⟨⟨hclean hfront, hmiddle⟩, hclean hback⟩, by decide⟩
  unfold pjlResponse
  split
  · exact escape_notMem_infoAnswer _
  · exact haround (by decide) hverb (by decide)
  · exact haround (by decide) hverb (by decide)
  · split
    · split
      · exact escape_notMem_page (by decide)
      · have hecho := @haround (ofText "@PJL ECHO ") c.arg [] (by decide) harg rfl
        rwa [append_nil] at hecho
    · split
      · exact escape_notMem_page (by decide +kernel)
      · split
        · exact haround (by decide) hverb (by decide)
        · exact not_mem_nil
  · exact escape_notMem_page (by decide)

/-- Every line that is a command has a verb and a category from the fixed lists. Its answer is a function of
these two and, for ECHO alone, of a short printable token, and holds no escape byte. -/
theorem pjl_answers (upper : UpperTable) :
    (∀ line c, classifyPJL upper line = some c →
      c.verb ∈ pjlVerbs ∧ (c.what = [] ∨ c.what ∈ pjlInfoCategories) ∧
      (c.verb ≠ ofText "ECHO" → c.arg = []) ∧ c.arg.length ≤ 32 ∧
      (∀ b ∈ c.arg, 0x20 ≤ b ∧ b < 0x7f) ∧ 0x1b ∉ pjlResponse c) ∧
    (∃ answer : Text → Text → Text → Text, ∀ line c, classifyPJL upper line = some c →
      pjlResponse c =
        answer c.verb c.what (if c.verb = ofText "ECHO" then c.arg else [])) ∧
    ∀ line line' c c', classifyPJL upper line = some c → classifyPJL upper line' = some c' →
      c.verb = c'.verb → c.what = c'.what → c.arg = c'.arg → pjlResponse c = pjlResponse c' := by
  refine ⟨?_, ⟨answer, ?_⟩, ?_⟩
  · intro line c hc
    have hconfined := confined_classifyPJL hc
    refine ⟨hconfined.verb, hconfined.what, hconfined.silent, hconfined.short, ?_,
      escape_notMem_pjlResponse hconfined⟩
    intro b hb
    have hprintable := hconfined.printable b hb
    rw [Telnet.isPrintable, Bool.and_eq_true, decide_eq_true_iff, decide_eq_true_iff] at hprintable
    exact hprintable
  · intro line c hc
    have hconfined := confined_classifyPJL hc
    rw [pjlResponse_eq_answer hconfined]
    unfold answer
    split <;> rfl
  · intro line line' c c' hc hc' hverb hwhat harg
    rw [pjlResponse_eq_answer (confined_classifyPJL hc), pjlResponse_eq_answer (confined_classifyPJL hc'),
      hverb, hwhat, harg]

/-- An ECHO with control bytes and a category in mixed case. -/
example : classifyPJL .latin (ofText "@pjl echo  a\x1b\x07b ") = some ⟨.job, ofText "ECHO", [], ofText "ab"⟩ ∧
    classifyPJL .latin (ofText "@PJL Info Id\r\n") = some ⟨.info, ofText "INFO", ofText "ID", []⟩ := by
  decide +kernel

end RanHoneypot.Trap.Pjl
