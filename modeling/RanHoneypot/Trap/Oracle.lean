import RanHoneypot.Data.GoUpper

/-!
# Connect packets of the Oracle trap

The trap takes the user and the service name from the connect data of a TNS packet, in which parameters
stand in parentheses, such as `(USER=scott)`. It looks for a parameter in a copy in upper case and then
takes its value from the original, at the position that it found in the copy.
-/

namespace RanHoneypot.Trap.Oracle

open GoText Utf8 List

/-! ## The trap -/

variable {upper : UpperTable} {data : Text} {unit : ℕ × ℕ} {key : Text}

/-- The text that a parameter starts with. -/
def searchText (key : Text) : Text := ch '(' :: (key ++ [ch '='])

/-- The value of a parameter; `none` stands for the panic of a slice whose start lies out of range. -/
def extractTNSParam (upper : UpperTable) (data key : Text) : Option Text :=
  match index (stringsToUpper upper (searchText key)) (stringsToUpper upper data) with
  | none => some []
  | some idx =>
    let start := idx + (searchText key).length
    if data.length < start then none
    else
      match index [ch ')'] (data.drop start) with
      | none => some []
      | some stop => some ((data.drop start).take stop)

/-- The type and the payload of a packet. -/
def readTNSPacket (s : Text) : Option (UInt8 × Text) :=
  if s.length < 8 then none
  else
    let length := uint16 s 0
    if length < 8 ∨ 2 ^ 20 < length then none
    else if s.length < length then none
    else some (s.getD 4 0, (s.drop 8).take (length - 8))

def buildTNSPacket (pktType : UInt8) (payload : Text) : Text :=
  putUint16 (8 + payload.length) ++ [0, 0, pktType, 0, 0, 0] ++ payload

inductive OracleResult where
  | failed
  | panicked
  | captured (username serviceName response : Text)
deriving DecidableEq

def refuseMsg : Text := ofText "ORA-01017: invalid username/password; logon denied"

/-- A session on a connection that delivers `s` and takes every write. -/
def handle (upper : UpperTable) (s : Text) : OracleResult :=
  match readTNSPacket s with
  | none => .failed
  | some (pktType, payload) =>
    if pktType ≠ 1 then .failed
    else
      match extractTNSParam upper payload (ofText "USER"),
        extractTNSParam upper payload (ofText "SERVICE_NAME") with
      | some username, some serviceName =>
        .captured username serviceName
          (buildTNSPacket 2 (putUint16 0x0139 ++ [0, 0] ++ putUint16 0x0800 ++ putUint16 0x0800 ++
            List.replicate 8 0) ++
            buildTNSPacket 4 ([1, 0] ++ putUint16 refuseMsg.length ++ refuseMsg))
      | _, _ => .panicked

/-! ## What a parameter is -/

/-- A parameter stands at a position, its key in any case. -/
def OccursAt (data key : Text) (i : ℕ) : Prop :=
  ((data.drop i).take (searchText key).length).map upperByte = (searchText key).map upperByte

/-- The value of a parameter is taken without a panic, and if the parameter is there and closed, it is the
text between its first occurrence and the next closing parenthesis. -/
def Exact (upper : UpperTable) (data key : Text) : Prop :=
  extractTNSParam upper data key ≠ none ∧
    ∀ (i : ℕ) (value rest : Text), OccursAt data key i → (∀ k < i, ¬ OccursAt data key k) →
      data.drop (i + (searchText key).length) = value ++ ch ')' :: rest → ch ')' ∉ value →
      extractTNSParam upper data key = some value

theorem isAscii_searchText (hkey : ∀ b ∈ key, IsAscii b) : ∀ b ∈ searchText key, IsAscii b := by
  intro b hb
  rw [searchText, mem_cons, mem_append, mem_singleton] at hb
  rcases hb with hb | hb | hb
  · rw [hb]
    show (ch '(').toNat < 0x80
    decide
  · exact hkey b hb
  · rw [hb]
    show (ch '=').toNat < 0x80
    decide

theorem stringsToUpper_searchText (hkey : ∀ b ∈ key, IsAscii b) :
    stringsToUpper upper (searchText key) = (searchText key).map upperByte := by
  calc
    stringsToUpper upper (searchText _) = stringsToUpper upper (searchText _ ++ []) := by
      rw [append_nil]
    _ = (searchText _).map upperByte ++ stringsToUpper upper [] :=
      stringsToUpper_ascii (isAscii_searchText hkey) []
    _ = (searchText _).map upperByte := append_nil _

/-! ## Runes that keep their size -/

/-- An ASCII text in upper case stands at the same positions in the text and in its copy. -/
theorem prefix_iff_of_cased {copy : Text} (h : List.Forall₂ Cased data copy) {word : Text}
    (hword : ∀ b ∈ word, IsAscii b) :
    word <+: copy ↔ (data.take word.length).map upperByte = word := by
  induction word generalizing data copy with
  | nil => simp
  | cons c word ih =>
    have hc := hword c mem_cons_self
    cases h with
    | nil => simp
    | @cons b u data copy hbu hrest =>
      rw [cons_prefix_cons, ih hrest fun d hd ↦ hword d (mem_cons_of_mem c hd), length_cons,
        take_succ_cons, map_cons, List.cons.injEq]
      refine and_congr_left fun _ ↦ ?_
      rcases hbu with ⟨_, hu⟩ | ⟨hb, hu⟩
      · rw [hu]
        exact eq_comm
      · -- a byte beyond ASCII matches on neither side
        unfold IsAscii at hc
        unfold High at hb hu
        refine iff_of_false ?_ ?_
        · intro hcu
          rw [← hcu] at hu
          omega
        · intro hbc
          have hnat := toNat_upperByte b
          rw [if_neg (by omega), hbc] at hnat
          omega

/-- The copy shows a parameter where it stands. -/
theorem prefix_drop_iff_occursAt (hkey : ∀ b ∈ key, IsAscii b)
    (hdata : ∀ unit ∈ runes data, KeepsSize upper unit) (i : ℕ) :
    (searchText key).map upperByte <+: (stringsToUpper upper data).drop i ↔ OccursAt data key i := by
  have hcased := List.forall₂_drop i (cased_stringsToUpper _ hdata)
  have hword : ∀ b ∈ (searchText key).map upperByte, IsAscii b := by
    intro b hb
    rcases mem_map.mp hb with ⟨c, hc, hcb⟩
    rw [← hcb]
    exact isAscii_upperByte (isAscii_searchText hkey c hc)
  rw [prefix_iff_of_cased hcased hword, length_map, OccursAt]

theorem OccursAt.le {i : ℕ} (h : OccursAt data key i) :
    i + (searchText key).length ≤ data.length := by
  have hlength := congrArg List.length h
  rw [length_map, length_map, length_take, length_drop] at hlength
  have hpos : 0 < (searchText key).length := Nat.succ_pos _
  omega

/-- Data whose runes keep their size in upper case. -/
theorem exact_of_keepsSize (hkey : ∀ b ∈ key, IsAscii b)
    (hdata : ∀ unit ∈ runes data, KeepsSize upper unit) : Exact upper data key := by
  have hoccurs := prefix_drop_iff_occursAt hkey hdata
  unfold Exact extractTNSParam
  rw [stringsToUpper_searchText hkey]
  cases hindex : index ((searchText _).map upperByte) (stringsToUpper ..) with
  | none =>
    refine ⟨Option.some_ne_none _, ?_⟩
    intro i value rest hat
    exact absurd hindex (index_ne_none ((hoccurs i).mpr hat))
  | some idx =>
    rcases index_eq_some_iff.mp hindex with ⟨hstarts, _, hfirst⟩
    have hat := (hoccurs idx).mp hstarts
    simp only [if_neg (not_lt.mpr hat.le)]
    constructor
    · split <;> exact Option.some_ne_none _
    · intro i value rest hati hfirsti hvalue hopen
      have hsame : i = idx := by
        rcases Nat.lt_trichotomy i idx with hlt | heq | hgt
        · exact absurd ((hoccurs i).mpr hati) (hfirst i hlt)
        · exact heq
        · exact absurd hat (hfirsti idx hgt)
      have hstop : index [ch ')'] (value ++ ch ')' :: rest) = some value.length :=
        index_front hopen rest
      rw [← hsame, hvalue, hstop]
      simp only [take_left]

/-! ## Runes that do not -/

/-- A rune as it stands in a text, or a malformed byte. -/
def IsUnit (unit : ℕ × ℕ) : Prop :=
  (IsScalar unit.1 ∧ unit.2 = (encodeRune unit.1).length) ∨ unit = (runeError, 1)

/-- Bytes that are decoded as one unit. -/
theorem IsUnit.bytes (hunit : IsUnit unit) :
    ∃ bytes : Text, bytes.length = unit.2 ∧
      (∀ rest, runes (bytes ++ rest) = unit :: runes rest) := by
  rcases unit with ⟨r, size⟩
  rcases hunit with ⟨hscalar, hsize⟩ | herror
  · exact ⟨encodeRune r, hsize.symm, fun rest ↦ by rw [runes_encodeRune_append hscalar, ← hsize]⟩
  · refine ⟨[0xFF], ?_, ?_⟩
    · rw [herror]
      rfl
    · intro rest
      rw [herror, singleton_append, runes_eq (cons_ne_nil _ _)]
      have hdecode : decodeRune (0xFF :: rest) = (runeError, 1) := by
        rfl
      rfl

theorem stringsToUpper_unit {bytes : Text}
    (hbytes : ∀ rest, runes (bytes ++ rest) = unit :: runes rest) (rest : Text) :
    stringsToUpper upper (bytes ++ rest) = encodeRune (upper.rune unit.1) ++ stringsToUpper upper rest := by
  rw [stringsToUpper, hbytes]
  rfl

theorem length_encodeRune_le (r : ℕ) : (encodeRune r).length ≤ 4 := by
  unfold encodeRune
  dsimp only
  split_ifs <;> simp

/-- A unit that changes its size is beyond ASCII. -/
theorem IsUnit.high (hunit : IsUnit unit) (hkeeps : ¬ KeepsSize upper unit) : 0x80 ≤ unit.1 := by
  by_contra hlow
  have hascii : unit.1 < 0x80 := not_le.mp hlow
  rcases hunit with ⟨_, hsize⟩ | herror
  · apply hkeeps
    have hbyte : IsAscii (UInt8.ofNat unit.1) := by
      rw [IsAscii, toNat_ofNat (by omega)]
      exact hascii
    have hupper := @encodeRune_upper_ascii upper _ hbyte
    rw [toNat_ofNat (by omega)] at hupper
    rw [KeepsSize, hupper, hsize, encodeRune_ascii hascii]
    rfl
  · rw [herror] at hascii
    exact absurd hascii (by decide)

/-- The parameter with the key `K` and an empty value. -/
def emptyParam : Text := [ch '(', ch 'K', ch '=', ch ')']

theorem stringsToUpper_emptyParam (upper : UpperTable) : stringsToUpper upper emptyParam = emptyParam := by
  have hascii : ∀ b ∈ emptyParam, IsAscii b := by
    intro b hb
    have hall : emptyParam.all (fun b ↦ decide (b.toNat < 0x80)) = true := by decide
    have hlow := all_eq_true.mp hall b hb
    rwa [decide_eq_true_eq] at hlow
  calc
    stringsToUpper upper emptyParam = stringsToUpper upper (emptyParam ++ []) := by rw [append_nil]
    _ = emptyParam.map upperByte ++ stringsToUpper upper [] := stringsToUpper_ascii hascii []
    _ = emptyParam := by
      rw [show stringsToUpper upper [] = [] from rfl]
      decide

/-- The parameter is found behind the copy of what stands in front of it. -/
theorem index_emptyParam {front : Text} (hfront : ch '(' ∉ front) :
    index (stringsToUpper upper (searchText [ch 'K'])) (front ++ emptyParam) = some front.length := by
  have hkey : ∀ b ∈ [ch 'K'], IsAscii b := by
    intro b hb
    rw [mem_singleton.mp hb]
    show (ch 'K').toNat < 0x80
    decide
  have hsearch : (searchText [ch 'K']).map upperByte = [ch '(', ch 'K', ch '='] := by decide
  rw [stringsToUpper_searchText hkey]
  exact index_front hfront _

/-- A unit that grows moves the start of the value behind the end of the data. -/
theorem panics_of_grows {bytes : Text} (hhigh : 0x80 ≤ unit.1) (hlength : bytes.length = unit.2)
    (hbytes : ∀ rest, runes (bytes ++ rest) = unit :: runes rest)
    (hgrows : unit.2 < (encodeRune (upper.rune unit.1)).length) :
    extractTNSParam upper (bytes ++ (bytes ++ emptyParam)) [ch 'K'] = none := by
  have hopen : ch '(' ∉ encodeRune (upper.rune _) :=
    notMem_encodeRune_upper hhigh (show (ch '(').toNat < 0x80 by decide) (by decide)
  have hindex := @index_emptyParam upper
    (encodeRune _ ++ encodeRune (upper.rune _)) (by
      rw [mem_append, not_or]
      exact ⟨hopen, hopen⟩)
  rw [extractTNSParam, stringsToUpper_unit hbytes, stringsToUpper_unit hbytes, stringsToUpper_emptyParam,
    ← append_assoc, hindex]
  have hsearch : (searchText [ch 'K']).length = 3 := rfl
  have hparam : emptyParam.length = 4 := rfl
  simp only [length_append, hparam]
  rw [if_pos (by omega)]

/-- A rune that shrinks moves the start of the value into the text in front of it. -/
theorem not_exact_of_shrinks {r : ℕ} (hscalar : IsScalar r) (hhigh : 0x80 ≤ r)
    (hshrinks : (encodeRune (upper.rune r)).length < (encodeRune r).length) :
    ¬ Exact upper (encodeRune r ++ emptyParam) [ch 'K'] := by
  have hopen : ch '(' ∉ encodeRune (upper.rune r) :=
    notMem_encodeRune_upper hhigh (show (ch '(').toNat < 0x80 by decide) (by decide)
  have hbytes : ∀ b ∈ encodeRune r, High b := fun b hb ↦ high_of_mem_encodeRune hhigh hb
  have hsearch : (searchText [ch 'K']).length = 3 := rfl
  have hparam : emptyParam.length = 4 := rfl
  have hfour := length_encodeRune_le r
  have hone : 0 < (encodeRune (upper.rune r)).length := length_pos_iff.mpr (encodeRune_ne_nil _)
  intro hexact
  have hat : OccursAt (encodeRune r ++ emptyParam) [ch 'K'] (encodeRune r).length := by
    rw [OccursAt, drop_left]
    decide
  have hfirst : ∀ k < (encodeRune r).length, ¬ OccursAt (encodeRune r ++ emptyParam) [ch 'K'] k := by
    intro k hk hat
    rw [OccursAt, drop_append_of_le_length hk.le, drop_eq_getElem_cons hk, cons_append,
      hsearch, take_succ_cons] at hat
    have hbyte : upperByte (encodeRune r)[k] = ch '(' := (List.cons.inj hat).1
    have hk' := hbytes _ (getElem_mem hk)
    have hnat := toNat_upperByte (encodeRune r)[k]
    have hparen : (ch '(').toNat = 40 := rfl
    unfold High at hk'
    rw [hbyte, if_neg (by omega)] at hnat
    omega
  have hrest : (encodeRune r ++ emptyParam).drop ((encodeRune r).length + (searchText [ch 'K']).length) =
      [] ++ [ch ')'] := by
    rw [drop_length_add_append]
    rfl
  have hvalue := hexact.2 (encodeRune r).length [] [] hat hfirst hrest (by simp)
  rw [extractTNSParam, stringsToUpper_unit (fun rest ↦ runes_encodeRune_append hscalar rest),
    stringsToUpper_emptyParam, index_emptyParam hopen] at hvalue
  simp only [length_append, hsearch] at hvalue
  rw [if_neg (by omega)] at hvalue
  -- one to three bytes of the parameter are taken for its value
  have hcases : (encodeRune (upper.rune r)).length + 3 = (encodeRune r).length + 2 ∨
      (encodeRune (upper.rune r)).length + 3 = (encodeRune r).length + 1 ∨
      (encodeRune (upper.rune r)).length + 3 = (encodeRune r).length + 0 := by omega
  rcases hcases with hstart | hstart | hstart
  · rw [hstart, drop_length_add_append] at hvalue
    exact absurd hvalue (by decide)
  · rw [hstart, drop_length_add_append] at hvalue
    exact absurd hvalue (by decide)
  · rw [hstart, drop_length_add_append] at hvalue
    exact absurd hvalue (by decide)

/-- Characters, with ASCII among them. -/
structure Alphabet where
  has : ℕ × ℕ → Prop
  isUnit : ∀ unit, has unit → IsUnit unit
  ascii : ∀ r < 0x80, has (r, 1)

theorem mem_runes_emptyParam (hunit : unit ∈ runes emptyParam) : ∃ r < 0x80, unit = (r, 1) := by
  have hrunes : runes emptyParam = [(40, 1), (75, 1), (61, 1), (41, 1)] := by decide
  rw [hrunes] at hunit
  simp only [mem_cons, not_mem_nil, or_false] at hunit
  rcases hunit with hunit | hunit | hunit | hunit
  · exact ⟨40, by decide, hunit⟩
  · exact ⟨75, by decide, hunit⟩
  · exact ⟨61, by decide, hunit⟩
  · exact ⟨41, by decide, hunit⟩

end RanHoneypot.Trap.Oracle
