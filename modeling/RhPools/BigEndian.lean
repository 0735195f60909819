import Mathlib.Tactic.Ring
import Mathlib.Tactic.Linarith

/-! Big-endian byte strings of a fixed width. A width too small for the number
keeps its low bytes only, so the read-back law is stated modulo `256 ^ width`. -/

namespace RhPools.BigEndian

abbrev Bytes := List UInt8

instance : LawfulBEq Bytes := inferInstance

def ofBytes (bytes : Bytes) : Nat :=
  bytes.foldl (fun acc byte => acc * 256 + byte.toNat) 0

def toBytes : Nat → Nat → Bytes
  | 0, _ => []
  | width + 1, n => UInt8.ofNat (n / 256 ^ width) :: toBytes width n

@[simp] theorem length_toBytes (width n : Nat) : (toBytes width n).length = width := by
  induction width with
  | zero => rfl
  | succ width ih => simp [toBytes, ih]

variable (bytes : Bytes)

theorem foldl_from (start : Nat) :
    bytes.foldl (fun acc byte => acc * 256 + byte.toNat) start =
      start * 256 ^ bytes.length + ofBytes bytes := by
  induction bytes generalizing start with
  | nil => simp [ofBytes]
  | cons byte rest ih =>
    simp only [ofBytes, List.foldl_cons, List.length_cons]
    rw [ih, ih (0 * 256 + byte.toNat)]
    ring

theorem ofBytes_cons (byte : UInt8) (rest : Bytes) :
    ofBytes (byte :: rest) = byte.toNat * 256 ^ rest.length + ofBytes rest := by
  simpa [ofBytes] using foldl_from rest byte.toNat

theorem ofBytes_toBytes (width n : Nat) : ofBytes (toBytes width n) = n % 256 ^ width := by
  induction width with
  | zero => simp [toBytes, ofBytes, Nat.mod_one]
  | succ width ih =>
    have top : (UInt8.ofNat (n / 256 ^ width)).toNat = n / 256 ^ width % 256 :=
      UInt8.toNat_ofNat'
    rw [toBytes, ofBytes_cons, ih, length_toBytes, top]
    rw [Nat.pow_succ 256 width, Nat.mod_mul]
    ring

theorem ofBytes_toBytes_of_lt (width n : Nat) (fits : n < 256 ^ width) :
    ofBytes (toBytes width n) = n := by
  rw [ofBytes_toBytes, Nat.mod_eq_of_lt fits]

theorem ofBytes_append (left right : Bytes) :
    ofBytes (left ++ right) = ofBytes left * 256 ^ right.length + ofBytes right := by
  rw [ofBytes, List.foldl_append, foldl_from]
  rfl

theorem ofBytes_lt : ofBytes bytes < 256 ^ bytes.length := by
  induction bytes with
  | nil => simp [ofBytes]
  | cons byte rest ih =>
    have digit : byte.toNat < 256 := byte.toNat_lt
    rw [ofBytes_cons, List.length_cons, Nat.pow_succ]
    nlinarith

theorem toBytes_high (width high n : Nat) :
    toBytes width (high * 256 ^ width + n) = toBytes width n := by
  induction width generalizing high with
  | zero => rfl
  | succ width ih =>
    have split : high * 256 ^ (width + 1) + n = high * 256 * 256 ^ width + n := by ring
    have digit : UInt8.ofNat ((high * 256 ^ (width + 1) + n) / 256 ^ width) =
        UInt8.ofNat (n / 256 ^ width) := by
      rw [split, Nat.add_comm, Nat.add_mul_div_right _ _ (Nat.pow_pos (by norm_num))]
      apply UInt8.toNat_inj.mp
      rw [UInt8.toNat_ofNat', UInt8.toNat_ofNat']
      omega
    rw [toBytes, toBytes, digit, split, ih]

theorem toBytes_ofBytes : toBytes bytes.length (ofBytes bytes) = bytes := by
  induction bytes with
  | nil => rfl
  | cons byte rest ih =>
    have small := ofBytes_lt rest
    have top : (byte.toNat * 256 ^ rest.length + ofBytes rest) / 256 ^ rest.length =
        byte.toNat := by
      rw [Nat.add_comm, Nat.add_mul_div_right _ _ (Nat.pow_pos (by norm_num)),
        Nat.div_eq_of_lt small, Nat.zero_add]
    rw [List.length_cons, toBytes, ofBytes_cons, top, toBytes_high, ih, UInt8.ofNat_toNat]

theorem toBytes_padded (pad width n : Nat) (fits : n < 256 ^ width) :
    toBytes (pad + width) n = List.replicate pad 0 ++ toBytes width n := by
  induction pad with
  | zero => simp
  | succ pad ih =>
    have empty : n / 256 ^ (pad + width) = 0 := by
      apply Nat.div_eq_of_lt
      exact fits.trans_le (Nat.pow_le_pow_right (by norm_num) (Nat.le_add_left width pad))
    rw [Nat.add_right_comm, toBytes, empty, ih, List.replicate_succ, List.cons_append]
    rfl

/-! Slices. A block written at a position is found there whatever surrounds it. -/

/-- `block` stands in `bytes` at position `pos`. -/
def Holds (bytes : Bytes) (pos : Nat) (block : Bytes) : Prop :=
  block <+: bytes.drop pos

theorem holds_append (pos : Nat) (left right : Bytes) :
    Holds bytes pos (left ++ right) ↔
      Holds bytes pos left ∧ Holds bytes (pos + left.length) right := by
  unfold Holds
  constructor
  · rintro ⟨rest, same⟩
    refine ⟨⟨right ++ rest, by rw [← same, List.append_assoc]⟩, ⟨rest, ?_⟩⟩
    rw [← List.drop_drop, ← same, List.append_assoc, List.drop_left]
  · rintro ⟨⟨rest, same⟩, tail⟩
    rw [← List.drop_drop, ← same, List.drop_left] at tail
    obtain ⟨after, same'⟩ := tail
    exact ⟨after, by rw [← same, ← same', List.append_assoc]⟩

theorem holds_self : Holds bytes 0 bytes := by
  simp [Holds]

theorem holds_take (pos : Nat) (block : Bytes) (held : Holds bytes pos block) :
    (bytes.drop pos).take block.length = block := by
  obtain ⟨rest, same⟩ := held
  rw [← same, List.take_left]

end RhPools.BigEndian
