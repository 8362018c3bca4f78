import Mathlib.Data.List.Basic

/-!
# UTF-16

The characters of a sequence of UTF-16 code units, a surrogate without its other half read as U+FFFD, and their bytes
in UTF-8.  Sequences that need no such reading are told apart by their bytes.
-/

namespace EasyDocket

namespace Utf16

/-- A code unit. -/
abbrev Unit16 := Fin 65536

/-- The character that stands for what is none. -/
def replacement : Char := Char.ofNat 0xFFFD

/-- The first half of a pair. -/
def isHigh (u : Unit16) : Bool := 0xD800 ≤ u.val && u.val < 0xDC00

/-- The second half of a pair. -/
def isLow (u : Unit16) : Bool := 0xDC00 ≤ u.val && u.val < 0xE000

/-- The character of a unit on its own. -/
def single (u : Unit16) : Char := if isHigh u || isLow u then replacement else Char.ofNat u.val

/-- The character of two halves. -/
def pair (u v : Unit16) : Char := Char.ofNat (0x10000 + (u.val - 0xD800) * 0x400 + (v.val - 0xDC00))

/-- The characters of a sequence of units. -/
def chars : List Unit16 → List Char
  | [] => []
  | [u] => [single u]
  | u :: v :: rest => if isHigh u && isLow v then pair u v :: chars rest else single u :: chars (v :: rest)

/-- The unit of a number. -/
def unitOf (n : ℕ) : Unit16 := ⟨n % 65536, Nat.mod_lt n (by decide)⟩

/-- The units of a character. -/
def units (c : Char) : List Unit16 :=
  if c.toNat < 0x10000 then [unitOf c.toNat]
  else [unitOf (0xD800 + (c.toNat - 0x10000) / 0x400), unitOf (0xDC00 + (c.toNat - 0x10000) % 0x400)]

/-- The bytes of a sequence of units in UTF-8. -/
def utf8 (s : List Unit16) : List UInt8 := (chars s).flatMap String.utf8EncodeChar

/-- Every unit stands for a character, and none for U+FFFD. -/
def Readable (s : List Unit16) : Prop := replacement ∉ chars s

instance (s : List Unit16) : Decidable (Readable s) := inferInstanceAs (Decidable (_ ∉ _))

theorem toNat_ofNat {n : ℕ} (h : n.isValidChar) : (Char.ofNat n).toNat = n := by
  unfold Char.ofNat
  rw [dif_pos h]
  rfl

theorem units_single {u : Unit16} (h : single u ≠ replacement) : units (single u) = [u] := by
  unfold single at h ⊢
  split_ifs at h ⊢ with hs
  · exact absurd rfl h
  · simp only [isHigh, isLow, Bool.or_eq_true, Bool.and_eq_true, decide_eq_true_eq, not_or, not_and, Nat.not_lt] at hs
    have hvalid : u.val.isValidChar := by
      unfold Nat.isValidChar
      omega
    unfold units
    rw [toNat_ofNat hvalid, if_pos u.isLt]
    exact congrArg (· :: []) (Fin.ext (Nat.mod_eq_of_lt u.isLt))

theorem units_pair {u v : Unit16} (hu : isHigh u = true) (hv : isLow v = true) : units (pair u v) = [u, v] := by
  simp only [isHigh, isLow, Bool.and_eq_true, decide_eq_true_eq] at hu hv
  have hvalid : (0x10000 + (u.val - 0xD800) * 0x400 + (v.val - 0xDC00)).isValidChar := by
    unfold Nat.isValidChar
    omega
  unfold units pair
  rw [toNat_ofNat hvalid, if_neg (by omega)]
  refine List.cons_eq_cons.mpr ⟨Fin.ext ?_, List.cons_eq_cons.mpr ⟨Fin.ext ?_, rfl⟩⟩
  · show (0xD800 + _ / 0x400) % 65536 = u.val
    omega
  · show (0xDC00 + _ % 0x400) % 65536 = v.val
    omega

/-- A sequence that can be read is made of the units of its characters. -/
theorem flatMap_units_chars {s : List Unit16} (h : Readable s) : (chars s).flatMap units = s := by
  fun_induction chars s with
  | case1 => rfl
  | case2 u =>
    have hu : single u ≠ replacement := fun heq => h (List.mem_singleton.mpr heq.symm)
    rw [List.flatMap_singleton, units_single hu]
  | case3 u v rest hp ih =>
    obtain ⟨hu, hv⟩ := Bool.and_eq_true_iff.mp hp
    have hrest : Readable rest := fun hmem => h (by unfold chars; rw [if_pos hp]; exact List.mem_cons_of_mem _ hmem)
    rw [List.flatMap_cons, units_pair hu hv, ih hrest]
    rfl
  | case4 u v rest hp ih =>
    have hsplit : chars (u :: v :: rest) = single u :: chars (v :: rest) := by
      conv_lhs => unfold chars
      exact if_neg hp
    have hu : single u ≠ replacement := fun heq => h (by rw [hsplit, heq]; exact List.mem_cons_self)
    have hrest : Readable (v :: rest) := fun hmem => h (by rw [hsplit]; exact List.mem_cons_of_mem _ hmem)
    rw [List.flatMap_cons, units_single hu, ih hrest]
    rfl

/-- Characters are told apart by their bytes. -/
theorem flatMap_utf8EncodeChar_inj {l m : List Char}
    (h : l.flatMap String.utf8EncodeChar = m.flatMap String.utf8EncodeChar) : l = m := by
  have hbytes : (String.ofList l).toByteArray = (String.ofList m).toByteArray := by
    rw [String.toByteArray_ofList, String.toByteArray_ofList]
    exact congrArg List.toByteArray h
  exact String.ofList_injective (String.toByteArray_inj.mp hbytes)

/-- No other sequence has the bytes of one that can be read. -/
theorem utf8_eq_iff {s t : List Unit16} (h : Readable s) : utf8 t = utf8 s ↔ t = s := by
  refine ⟨fun heq => ?_, fun heq => heq ▸ rfl⟩
  have hchars : chars t = chars s := flatMap_utf8EncodeChar_inj heq
  have ht : Readable t := by
    unfold Readable
    rw [hchars]
    exact h
  rw [← flatMap_units_chars ht, hchars, flatMap_units_chars h]

end Utf16

end EasyDocket
