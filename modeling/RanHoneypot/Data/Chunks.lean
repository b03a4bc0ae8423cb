import Mathlib.Data.List.Basic

/-!
# Streams that arrive in chunks

A reader is fed with a stream in chunks, however they are cut. If one chunk always takes the state that
belongs to the bytes before it to the state that belongs to the bytes with it, then the state after all
chunks belongs to the whole stream, and the cuts leave no trace.
-/

namespace RanHoneypot.Chunks

variable {σ α : Type*} {feed : σ → List α → σ}

/-- What every chunk carries from the bytes seen to the bytes seen with it holds after all of them. -/
theorem foldl_invariant {Belongs : σ → List α → Prop}
    (hstep : ∀ s seen chunk, Belongs s seen → Belongs (feed s chunk) (seen ++ chunk))
    (chunks : List (List α)) {s : σ} {seen : List α} (hs : Belongs s seen) :
    Belongs (chunks.foldl feed s) (seen ++ chunks.flatten) := by
  induction chunks generalizing s seen with
  | nil => rwa [List.flatten_nil, List.append_nil]
  | cons chunk chunks ih =>
    rw [List.flatten_cons, ← List.append_assoc]
    exact ih (hstep s seen chunk hs)

/-- The case of a state that is a function of the bytes seen. -/
theorem foldl_eq_view {view : List α → σ}
    (hstep : ∀ seen chunk, feed (view seen) chunk = view (seen ++ chunk)) (chunks : List (List α)) :
    chunks.foldl feed (view []) = view chunks.flatten := by
  have hview : ∀ s seen chunk, s = view seen → feed s chunk = view (seen ++ chunk) := by
    intro s seen chunk hs
    rw [hs, hstep]
  exact foldl_invariant hview _ rfl

end RanHoneypot.Chunks
