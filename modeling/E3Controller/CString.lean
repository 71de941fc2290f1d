import Mathlib.Data.List.Basic
import Mathlib.Data.List.TakeWhile

/-! Byte strings as C++ and C see them: a `std::string` is a list of bytes, a C
reader stops at the first NUL, and a fixed `char` array truncates. -/
namespace CString

abbrev Str := List UInt8

def str (s : String) : Str := s.toList.flatMap String.utf8EncodeChar

def cstr (s : Str) : Str := s.takeWhile (· ≠ 0)

/-- `snprintf(array, n, "%s", s.c_str())` into a zeroed array of `n` chars. -/
def charArray (n : ℕ) (s : Str) : List UInt8 :=
  let text := (cstr s).take (n - 1)
  text ++ List.replicate (n - text.length) 0

theorem zero_notMem_cstr (s : Str) : 0 ∉ cstr s := by
  intro h
  simpa using List.mem_takeWhile_imp h

theorem cstr_eq_self_iff (s : Str) : cstr s = s ↔ 0 ∉ s := by
  constructor
  · intro h
    rw [← h]
    exact zero_notMem_cstr s
  · intro h
    apply List.takeWhile_eq_self_iff.mpr
    intro b hb
    simp only [ne_eq,decide_not,Bool.not_eq_true',decide_eq_false_iff_not]
    rintro rfl
    exact h hb

theorem cstr_charArray {n : ℕ} (hn : 0 < n) (s : Str) :
    cstr (charArray n s) = (cstr s).take (n - 1) := by
  have hclean : ∀ b ∈ (cstr s).take (n - 1), decide (b ≠ 0) = true := by
    intro b hb
    simp only [ne_eq,decide_not,Bool.not_eq_true',decide_eq_false_iff_not]
    rintro rfl
    exact zero_notMem_cstr s (List.mem_of_mem_take hb)
  have hpos : 0 < n - ((cstr s).take (n - 1)).length := by
    have := List.length_take_le (n - 1) (cstr s)
    omega
  obtain ⟨m,hm⟩ := Nat.exists_eq_succ_of_ne_zero hpos.ne'
  have htail : (List.replicate (n - ((cstr s).take (n - 1)).length) (0 : UInt8)).takeWhile
      (fun b => decide (b ≠ 0)) = [] := by
    rw [hm,List.replicate_succ]
    rfl
  change ((cstr s).take (n - 1) ++ _).takeWhile _ = _
  rw [List.takeWhile_append_of_pos hclean,htail,List.append_nil]

end CString
