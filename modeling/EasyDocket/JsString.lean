import EasyDocket.Lib.Pattern

/-!
# JavaScript strings

A JavaScript string is a sequence of UTF-16 code units, and `<` on strings compares code units.  IndexedDB orders
its string keys the same way.
-/

namespace EasyDocket

/-- A UTF-16 code unit. -/
abbrev CodeUnit := Fin 65536

/-- A JavaScript string. -/
abbrev JsString := List CodeUnit

/-- Code units and strings are told apart by `==`; constants, so that all modules share the proofs. -/
instance lawfulBEq_codeUnit : LawfulBEq CodeUnit := inferInstance

instance lawfulBEq_jsString : LawfulBEq JsString := inferInstance

/-- The code unit of a character of the basic plane. -/
def unit (c : Char) : CodeUnit := Fin.ofNat 65536 c.toNat

/-- The JavaScript string of an ASCII literal. -/
def js (s : String) : JsString := s.toList.map unit

example : js "abc" < js "abd" := by decide

/-- What `.` in a pattern does not match. -/
def isLineTerminator (c : CodeUnit) : Bool := [10, 13, 8232, 8233].contains c.val

/-- `s.replace(c, d)`: the first one only. -/
def replaceFirst (s : JsString) (c d : CodeUnit) : JsString :=
  s.takeWhile (· ≠ c) ++ if c ∈ s then d :: (s.dropWhile (· ≠ c)).drop 1 else []

theorem replaceFirst_of_notMem {s : JsString} {c : CodeUnit} (h : c ∉ s) (d : CodeUnit) : replaceFirst s c d = s := by
  unfold replaceFirst
  rw [if_neg h, List.append_nil]
  exact List.takeWhile_eq_self_iff.mpr (fun x hx => decide_eq_true (ne_of_mem_of_not_mem hx h))

theorem replaceFirst_append {s t : JsString} {c d : CodeUnit} (h : c ∉ s) :
    replaceFirst (s ++ c :: t) c d = s ++ d :: t := by
  have hother : ∀ x ∈ s, decide (x ≠ c) = true := fun x hx => decide_eq_true (ne_of_mem_of_not_mem hx h)
  unfold replaceFirst
  rw [List.takeWhile_append_of_pos hother, List.dropWhile_append_of_pos hother,
    if_pos (List.mem_append_right _ List.mem_cons_self)]
  simp

/-- A text splits at a mark that stands nowhere before. -/
theorem split_at_mark {c : CodeUnit} {s t s' t' : JsString} (hs : c ∉ s) (ht : c ∉ t) (h : s ++ c :: s' = t ++ c :: t') :
    s = t ∧ s' = t' := by
  have hstop : ∀ {u u' : JsString}, c ∉ u → (u ++ c :: u').takeWhile (· ≠ c) = u := by
    intro u u' hu
    have hother : ∀ d ∈ u, decide (d ≠ c) = true := by
      rintro d hd
      exact decide_eq_true (fun heq => hu (by rwa [heq] at hd))
    rw [List.takeWhile_append_of_pos hother, List.takeWhile_cons_of_neg (by simp), List.append_nil]
  have heq : s = t := by rw [← @hstop s s' hs, h, hstop ht]
  subst heq
  exact ⟨rfl, (List.cons.inj (List.append_cancel_left h)).2⟩

end EasyDocket
