import Mathlib.Data.List.Induction

/-!
# Windows written over a map

A window gives new values to the keys it covers. After a sequence of windows a
key has the value of the last window that covers it.
-/

namespace PeachOs.Overlay

variable {κ β : Type*}

structure Window (κ β : Type*) where
  covers : κ → Bool
  value : κ → β

def write (f : κ → β) (w : Window κ β) : κ → β := fun k => if w.covers k then w.value k else f k

def last (ws : List (Window κ β)) (k : κ) : Option (Window κ β) :=
  ws.reverse.find? fun w => w.covers k

theorem last_concat (ws : List (Window κ β)) (w : Window κ β) (k : κ) :
    last (ws ++ [w]) k = if w.covers k then some w else last ws k := by
  unfold last
  rw [List.reverse_append, List.reverse_singleton, List.singleton_append]
  cases h : w.covers k
  · rw [List.find?_cons_of_neg (by simp [h]), if_neg (by simp)]
  · rw [List.find?_cons_of_pos (by simpa using h), if_pos rfl]

/-- The value after all windows, oldest first. -/
theorem foldl_write (f : κ → β) (ws : List (Window κ β)) (k : κ) :
    ws.foldl write f k = ((last ws k).map (·.value k)).getD (f k) := by
  induction ws using List.reverseRecOn with
  | nil => rfl
  | append_singleton ws w ih =>
    rw [List.foldl_append, List.foldl_cons, List.foldl_nil, write, last_concat]
    by_cases h : w.covers k
    · rw [if_pos h, if_pos h, Option.map_some, Option.getD_some]
    · rw [if_neg h, if_neg h]
      exact ih

end PeachOs.Overlay
