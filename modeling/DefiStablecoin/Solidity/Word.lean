import Mathlib.Data.Fintype.EquivFin
import Mathlib.Data.BitVec

/-!
# Solidity words and checked arithmetic

A `uint256` is a 256-bit vector, so that `unchecked` arithmetic is the vector's
own wrapping arithmetic and the cast between `int256` and `uint256` is the
identity.  Checked arithmetic reverts with the compiler's panic; each checked
operation has one lemma saying exactly when it returns and what, and one giving
its result as a natural number.
-/

namespace DefiStablecoin.Solidity

abbrev UInt256 := BitVec 256

/-- The two's complement word of an `int256`; its value is `BitVec.toInt`. -/
abbrev Int256 := BitVec 256

/-- `type(uint256).max`. -/
def maxUInt256 : UInt256 := BitVec.allOnes 256

@[simp] theorem toNat_maxUInt256 : maxUInt256.toNat = 2 ^ 256 - 1 := rfl

theorem toNat_zero : (0 : UInt256).toNat = 0 := rfl

theorem toNat_eq_zero {a : UInt256} : a.toNat = 0 ↔ a = 0 :=
  ⟨fun h => BitVec.eq_of_toNat_eq h, fun h => h ▸ rfl⟩

theorem ne_zero_of_toNat_pos {a : UInt256} (h : 0 < a.toNat) : a ≠ 0 :=
  fun hzero => h.ne' (toNat_eq_zero.mpr hzero)

theorem toNat_pos_of_ne_zero {a : UInt256} (h : a ≠ 0) : 0 < a.toNat :=
  Nat.pos_of_ne_zero fun hzero => h (toNat_eq_zero.mp hzero)

theorem not_le_zero_iff {a : UInt256} : ¬a ≤ 0 ↔ a ≠ 0 := by
  bv_omega

/-- A word whose two's complement value is negative is at least `2 ^ 255`. -/
theorem toNat_ge_of_toInt_neg {a : Int256} (h : a.toInt < 0) : 2 ^ 255 ≤ a.toNat := by
  rw [BitVec.toInt_neg_iff] at h
  omega

/-! ## Addresses -/

structure Address where
  val : Fin (2 ^ 160)
deriving DecidableEq, Repr

namespace Address

instance (n : Nat) : OfNat Address n := ⟨⟨Fin.ofNat _ n⟩⟩

instance : Inhabited Address := ⟨0⟩

def equivFin : Address ≃ Fin (2 ^ 160) where
  toFun := val
  invFun := mk
  left_inv _ := rfl
  right_inv _ := rfl

instance : Finite Address := Finite.of_equiv _ equivFin.symm

/-- There are too many addresses to list, so their enumeration is only known to exist. -/
noncomputable instance : Fintype Address := Fintype.ofFinite Address

end Address

/-! ## Failures the language itself raises -/

/-- The failures a compiled contract raises besides its own custom errors. -/
class SolidityError (ε : Type) where
  /-- `Panic(uint256)` with its code. -/
  panic : Nat → ε
  /-- `Error(string)`, raised by `require`. -/
  error : String → ε
  /-- A high-level call to an address that holds no code. -/
  noCode : ε

def arithmeticPanic : Nat := 0x11

def divisionPanic : Nat := 0x12

/-! ## Checked arithmetic -/

section Checked

variable {ε : Type} [SolidityError ε]

def checkedAdd (a b : UInt256) : Except ε UInt256 :=
  if a.toNat + b.toNat < 2 ^ 256 then .ok (a + b)
  else .error (SolidityError.panic arithmeticPanic)

def checkedSub (a b : UInt256) : Except ε UInt256 :=
  if b.toNat ≤ a.toNat then .ok (a - b)
  else .error (SolidityError.panic arithmeticPanic)

def checkedMul (a b : UInt256) : Except ε UInt256 :=
  if a.toNat * b.toNat < 2 ^ 256 then .ok (a * b)
  else .error (SolidityError.panic arithmeticPanic)

def checkedDiv (a b : UInt256) : Except ε UInt256 :=
  if b.toNat ≠ 0 then .ok (a / b)
  else .error (SolidityError.panic divisionPanic)

variable {a b c : UInt256}

theorem checkedAdd_eq_ok :
    checkedAdd (ε := ε) a b = .ok c ↔ a.toNat + b.toNat < 2 ^ 256 ∧ a + b = c := by
  unfold checkedAdd
  split <;> simp_all

theorem checkedSub_eq_ok :
    checkedSub (ε := ε) a b = .ok c ↔ b.toNat ≤ a.toNat ∧ a - b = c := by
  unfold checkedSub
  split <;> simp_all

theorem checkedMul_eq_ok :
    checkedMul (ε := ε) a b = .ok c ↔ a.toNat * b.toNat < 2 ^ 256 ∧ a * b = c := by
  unfold checkedMul
  split <;> simp_all

theorem checkedDiv_eq_ok :
    checkedDiv (ε := ε) a b = .ok c ↔ b.toNat ≠ 0 ∧ a / b = c := by
  unfold checkedDiv
  split <;> simp_all

theorem checkedAdd_eq_ok_toNat :
    checkedAdd (ε := ε) a b = .ok c ↔ c.toNat = a.toNat + b.toNat := by
  rw [checkedAdd_eq_ok]
  constructor
  · rintro ⟨h, rfl⟩
    exact BitVec.toNat_add_of_lt h
  · intro h
    have hlt : a.toNat + b.toNat < 2 ^ 256 := by omega
    exact ⟨hlt, BitVec.eq_of_toNat_eq (by rw [BitVec.toNat_add_of_lt hlt, h])⟩

theorem checkedMul_eq_ok_toNat :
    checkedMul (ε := ε) a b = .ok c ↔ c.toNat = a.toNat * b.toNat := by
  rw [checkedMul_eq_ok]
  constructor
  · rintro ⟨h, rfl⟩
    exact BitVec.toNat_mul_of_lt h
  · intro h
    have hlt : a.toNat * b.toNat < 2 ^ 256 := h ▸ c.isLt
    exact ⟨hlt, BitVec.eq_of_toNat_eq (by rw [BitVec.toNat_mul_of_lt hlt, h])⟩

theorem checkedDiv_eq_ok_toNat :
    checkedDiv (ε := ε) a b = .ok c ↔ b.toNat ≠ 0 ∧ c.toNat = a.toNat / b.toNat := by
  rw [checkedDiv_eq_ok]
  constructor
  · rintro ⟨h, rfl⟩
    exact ⟨h, BitVec.toNat_udiv⟩
  · rintro ⟨h, hc⟩
    exact ⟨h, BitVec.eq_of_toNat_eq (by rw [BitVec.toNat_udiv, hc])⟩

end Checked

end DefiStablecoin.Solidity
