import Mathlib.Data.List.Induction
import Mathlib.Data.Nat.Bitwise
import Mathlib.Tactic.Ring

/-! Strings of bits with the most significant bit first, the numbers they denote, and their
cut into bytes. -/
namespace BitString

def bits : ℕ → ℕ → List Bool
  | 0, _ => []
  | w + 1, v => bits w (v / 2) ++ [decide (v % 2 = 1)]

def number (bs : List Bool) : ℕ := bs.foldl (fun n b => 2 * n + b.toNat) 0

@[simp] theorem length_bits (w v : ℕ) : (bits w v).length = w := by
  induction w generalizing v with
  | zero => rfl
  | succ w ih => simp [bits,ih]

theorem number_append (xs ys : List Bool) :
    number (xs ++ ys) = number xs * 2 ^ ys.length + number ys := by
  have hacc : ∀ n, ys.foldl (fun n b => 2 * n + b.toNat) n = n * 2 ^ ys.length + number ys := by
    induction ys with
    | nil => simp [number]
    | cons b ys ih =>
      intro n
      rw [number,List.foldl_cons,List.foldl_cons,ih,ih,List.length_cons,pow_succ]
      ring
  rw [number,List.foldl_append]
  exact hacc _

theorem number_singleton (b : Bool) : number [b] = b.toNat := by simp [number]

theorem number_lt (bs : List Bool) : number bs < 2 ^ bs.length := by
  induction bs using List.reverseRecOn with
  | nil => simp [number]
  | append_singleton bs b ih =>
    have hb : b.toNat ≤ 1 := Bool.toNat_le b
    rw [number_append,number_singleton,List.length_append,List.length_singleton,pow_one,pow_succ]
    omega

theorem number_bits {w v : ℕ} (h : v < 2 ^ w) : number (bits w v) = v := by
  induction w generalizing v with
  | zero => simp at h; simp [bits,number,h]
  | succ w ih =>
    have hlast : (decide (v % 2 = 1)).toNat = v % 2 := by
      rcases Nat.mod_two_eq_zero_or_one v with hv | hv <;> simp [hv]
    rw [bits,number_append,number_singleton,ih (by rw [pow_succ] at h; omega),hlast,
      List.length_singleton,pow_one]
    omega

theorem bits_number (bs : List Bool) : bits bs.length (number bs) = bs := by
  induction bs using List.reverseRecOn with
  | nil => rfl
  | append_singleton bs b ih =>
    have hb : b.toNat ≤ 1 := Bool.toNat_le b
    rw [List.length_append,List.length_singleton,bits,number_append,number_singleton,
      List.length_singleton,pow_one,show (number bs * 2 + b.toNat) / 2 = number bs by omega,ih]
    cases b <;> simp

/-- A field of `w` bits at offset `o`, cut out of the number by division. -/
theorem number_field {bs : List Bool} {o w : ℕ} (h : o + w ≤ bs.length) :
    number bs / 2 ^ (bs.length - (o + w)) % 2 ^ w = number ((bs.drop o).take w) := by
  have hsplit : bs = bs.take o ++ ((bs.drop o).take w ++ bs.drop (o + w)) := by
    rw [← List.drop_drop,List.take_append_drop,List.take_append_drop]
  have hrest : (bs.drop (o + w)).length = bs.length - (o + w) := List.length_drop
  have hfield : ((bs.drop o).take w).length = w := by
    rw [List.length_take,List.length_drop]
    omega
  have hlow := number_lt (bs.drop (o + w))
  have hmid := number_lt ((bs.drop o).take w)
  rw [hrest] at hlow
  rw [hfield] at hmid
  have hnum : number bs = (number (bs.take o) * 2 ^ w + number ((bs.drop o).take w)) *
      2 ^ (bs.length - (o + w)) + number (bs.drop (o + w)) := by
    conv_lhs => rw [hsplit]
    rw [number_append,number_append,List.length_append,hrest,hfield,pow_add]
    ring
  rw [hnum,Nat.add_comm,Nat.add_mul_div_right _ _ (Nat.two_pow_pos _),Nat.div_eq_of_lt hlow,
    Nat.zero_add,Nat.add_comm,Nat.add_mul_mod_self_right,Nat.mod_eq_of_lt hmid]

section Fields

variable {α β : Type} {f : α → List β} {w : ℕ}

theorem length_fields (hf : ∀ a, (f a).length = w) (l : List α) :
    (l.flatMap f).length = w * l.length := by
  induction l with
  | nil => rfl
  | cons a l ih =>
    rw [List.flatMap_cons,List.length_append,hf,ih,List.length_cons,Nat.mul_succ,Nat.add_comm]

theorem fields_drop (hf : ∀ a, (f a).length = w) (l : List α) (k : ℕ) :
    (l.flatMap f).drop (w * k) = (l.drop k).flatMap f := by
  induction k generalizing l with
  | zero => rfl
  | succ k ih =>
    cases l with
    | nil => exact List.drop_nil
    | cons a l =>
      rw [List.flatMap_cons,Nat.mul_succ,Nat.add_comm,← List.drop_drop,← hf a,List.drop_left,hf a,ih]
      rfl

theorem fields_take (hf : ∀ a, (f a).length = w) (l : List α) (k : ℕ) :
    (l.flatMap f).take (w * k) = (l.take k).flatMap f := by
  induction k generalizing l with
  | zero => simp
  | succ k ih =>
    cases l with
    | nil => exact List.take_nil
    | cons a l =>
      rw [List.flatMap_cons,Nat.mul_succ,Nat.add_comm,← hf a,List.take_length_add_append,hf a,ih]
      rfl

theorem fields_get (hf : ∀ a, (f a).length = w) {l : List α} {i : ℕ} (hi : i < l.length) :
    ((l.flatMap f).drop (w * i)).take w = f l[i] := by
  rw [fields_drop hf,List.drop_eq_getElem_cons hi,List.flatMap_cons]
  exact List.take_left' (hf _)

end Fields

def ofBytes (l : List UInt8) : List Bool := l.flatMap fun b => bits 8 b.toNat

/-- A string cut into bytes; an incomplete last byte is left out. -/
def toBytes (bs : List Bool) : List UInt8 :=
  (List.range (bs.length / 8)).map fun k => UInt8.ofNat (number ((bs.drop (8 * k)).take 8))

theorem length_ofBytes (l : List UInt8) : (ofBytes l).length = 8 * l.length :=
  length_fields (fun _ => length_bits 8 _) l

theorem number_ofBytes_singleton (b : UInt8) : number (ofBytes [b]) = b.toNat := by
  rw [ofBytes,List.flatMap_singleton,number_bits b.toNat_lt]

/-- Bytes put together from the first one on, as code does it with shifts. -/
theorem shiftLeft_or_ofBytes (b : UInt8) (l : List UInt8) :
    b.toNat <<< (8 * l.length) ||| number (ofBytes l) = number (ofBytes (b :: l)) := by
  have hlt := number_lt (ofBytes l)
  rw [length_ofBytes] at hlt
  rw [← Nat.shiftLeft_add_eq_or_of_lt hlt,Nat.shiftLeft_eq,ofBytes,ofBytes,List.flatMap_cons,
    number_append,number_bits b.toNat_lt,← ofBytes,length_ofBytes]

theorem shiftLeft_toUInt32 (b : UInt8) {n : UInt32} (hn : n.toNat ≤ 24) :
    (b.toUInt32 <<< n).toNat = b.toNat <<< n.toNat := by
  have hb := b.toNat_lt
  have hpow : (2 : ℕ) ^ n.toNat ≤ 2 ^ 24 := Nat.pow_le_pow_right (by omega) hn
  have hlt : b.toNat * 2 ^ n.toNat < 2 ^ 32 := by
    calc b.toNat * 2 ^ n.toNat ≤ 255 * 2 ^ 24 := Nat.mul_le_mul (by omega) hpow
      _ < 2 ^ 32 := by decide
  rw [UInt32.toNat_shiftLeft,UInt8.toNat_toUInt32,Nat.mod_eq_of_lt (a := n.toNat) (by omega),
    Nat.mod_eq_of_lt]
  rwa [Nat.shiftLeft_eq]

theorem ofBytes_drop (l : List UInt8) (k : ℕ) : (ofBytes l).drop (8 * k) = ofBytes (l.drop k) :=
  fields_drop (fun _ => length_bits 8 _) l k

theorem ofBytes_take (l : List UInt8) (k : ℕ) : (ofBytes l).take (8 * k) = ofBytes (l.take k) :=
  fields_take (fun _ => length_bits 8 _) l k

theorem length_toBytes (bs : List Bool) : (toBytes bs).length = bs.length / 8 := by
  rw [toBytes,List.length_map,List.length_range]

theorem ofBytes_toBytes {bs : List Bool} {n : ℕ} (h : bs.length = 8 * n) :
    ofBytes (toBytes bs) = bs := by
  have hn : bs.length / 8 = n := by omega
  rw [toBytes,hn]
  induction n generalizing bs with
  | zero => exact (List.length_eq_zero_iff.mp h).symm
  | succ n ih =>
    have hfirst : (bs.take 8).length = 8 := by rw [List.length_take]; omega
    have hlt := number_lt (bs.take 8)
    have hbyte : bits 8 (UInt8.ofNat (number (bs.take 8))).toNat = bs.take 8 := by
      have hall := bits_number (bs.take 8)
      rw [hfirst] at hlt hall
      rw [UInt8.toNat_ofNat',Nat.mod_eq_of_lt hlt]
      exact hall
    have hrest : (bs.drop 8).length = 8 * n := by rw [List.length_drop]; omega
    have htail := ih hrest (by omega)
    simp only [List.drop_drop] at htail
    rw [List.range_succ_eq_map,List.map_cons,List.map_map,ofBytes,List.flatMap_cons,Nat.mul_zero,
      List.drop_zero,hbyte]
    conv_rhs => rw [← List.take_append_drop 8 bs,← htail]
    congr 2
    refine List.map_congr_left fun k _ => ?_
    rw [Function.comp_apply,Nat.mul_succ,Nat.add_comm]

end BitString
