import RanHoneypot.Data.GoText

/-!
# `strings.Replacer`

A replacer goes over a text from left to right. Where old texts stand, the first of them in the order of the
arguments is replaced and skipped; any other byte is copied. No old text is empty here.

A replacer undoes an encoding of single bytes if it finds every code where it stands, and nothing at a byte
that stands for itself.
-/

namespace RanHoneypot.GoReplacer

open GoText List

def replaceWith (pairs : List (Text × Text)) : ℕ → Text → Text
  | 0, s => s
  | _ + 1, [] => []
  | fuel + 1, b :: rest =>
    match pairs.find? fun pair ↦ pair.1.isPrefixOf (b :: rest) with
    | some (old, new) => new ++ replaceWith pairs fuel ((b :: rest).drop old.length)
    | none => b :: replaceWith pairs fuel rest

/-- `strings.NewReplacer(…).Replace(s)`. Every round takes a byte, so their number bounds the rounds. -/
def replace (pairs : List (Text × Text)) (s : Text) : Text := replaceWith pairs s.length s

/-- The pairs find the code of every byte, whatever follows it. -/
def Undoes (pairs : List (Text × Text)) (code : UInt8 → Text) : Prop :=
  ∀ (b : UInt8) (rest : Text),
    (code b = [b] ∧ (pairs.find? fun pair ↦ pair.1.isPrefixOf (b :: rest)) = none) ∨
      (code b ≠ [] ∧ (pairs.find? fun pair ↦ pair.1.isPrefixOf (code b ++ rest)) = some (code b, [b]))

variable {pairs : List (Text × Text)} {code : UInt8 → Text}

theorem replaceWith_flatMap (hpairs : Undoes pairs code) (s : Text) {fuel : ℕ}
    (hfuel : (s.flatMap code).length ≤ fuel) : replaceWith pairs fuel (s.flatMap code) = s := by
  induction s generalizing fuel with
  | nil => cases fuel <;> rfl
  | cons b s ih =>
    rw [flatMap_cons] at hfuel ⊢
    rw [length_append] at hfuel
    rcases hpairs b (s.flatMap _) with ⟨hcode, hnone⟩ | ⟨hcode, hsome⟩
    · rw [hcode, length_singleton] at hfuel
      rw [hcode, singleton_append]
      cases fuel with
      | zero => omega
      | succ fuel => rw [replaceWith, hnone, ih (by omega)]
    · have hpos : 0 < (code b).length := length_pos_of_ne_nil hcode
      cases fuel with
      | zero => omega
      | succ fuel =>
        have hrest : replaceWith pairs fuel (s.flatMap _) = s := ih (by omega)
        have hdrop : (code b ++ s.flatMap code).drop (code b).length = s.flatMap code := drop_left
        generalize htext : code b ++ s.flatMap code = text at hsome hdrop
        cases text with
        | nil => exact absurd (append_eq_nil_iff.mp htext).1 hcode
        | cons c text =>
          rw [replaceWith, hsome]
          simp [hdrop, hrest]

/-- A text that was encoded byte by byte is restored. -/
theorem replace_flatMap (hpairs : Undoes pairs code) (s : Text) : replace pairs (s.flatMap code) = s :=
  replaceWith_flatMap hpairs s le_rfl

end RanHoneypot.GoReplacer
