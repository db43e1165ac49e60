import Mathlib.Data.Nat.Digits.Defs
import Mathlib.GroupTheory.OrderOfElement
import VerdeAuth.ByteTexts

/-!
# Key agreement in a group of prime order

Two parties each keep a number and publish its multiple of a common element. Either one's
number times the other's element is the same for both, and is not zero where the common
element has prime order. Numbers travel as bytes, the most significant one first.
-/

namespace VerdeAuth.KeyAgreement

open ByteTexts

/-! Numbers as bytes -/

/-- Without leading zeros. -/
def bigEndian (n : ℕ) : Bytes := ((Nat.digits 256 n).map UInt8.ofNat).reverse

def fromBigEndian (bytes : Bytes) : ℕ := Nat.ofDigits 256 (bytes.reverse.map UInt8.toNat)

theorem fromBigEndian_bigEndian (n : ℕ) : fromBigEndian (bigEndian n) = n := by
  have hbytes : ∀ ds : List ℕ, (∀ d ∈ ds, d < 256) → (ds.map UInt8.ofNat).map UInt8.toNat = ds := by
    intro ds hds
    induction ds with
    | nil => rfl
    | cons d ds ih =>
      have hd : d < 256 := hds d List.mem_cons_self
      have hrest := ih fun d' hd' => hds d' (List.mem_cons_of_mem d hd')
      rw [List.map_cons, List.map_cons, hrest, UInt8.toNat_ofNat_of_lt' hd]
  have hdigits : ∀ d ∈ Nat.digits 256 n, d < 256 :=
    fun d hd => Nat.digits_lt_base (by decide) hd
  rw [fromBigEndian, bigEndian, List.reverse_reverse, hbytes _ hdigits, Nat.ofDigits_digits]

/-! The agreement -/

variable {G : Type} [AddCommGroup G] [DecidableEq G]

/-- What a party makes of its number and an element it is given. -/
def shared (d : ℕ) (P : G) : Option G := if d • P = 0 then none else some (d • P)

/-- Numbers below the order have no product that is a multiple of it. -/
theorem shared_ne_none {g : G} (hg : (addOrderOf g).Prime) {a b : ℕ} (ha : 0 < a)
    (ha' : a < addOrderOf g) (hb : 0 < b) (hb' : b < addOrderOf g) :
    shared a (b • g) = some ((a * b) • g) := by
  have hne : (a * b) • g ≠ 0 := by
    rw [Ne, ← addOrderOf_dvd_iff_nsmul_eq_zero, hg.dvd_mul]
    rintro (h | h)
    · exact absurd (Nat.le_of_dvd ha h) (Nat.not_le.mpr ha')
    · exact absurd (Nat.le_of_dvd hb h) (Nat.not_le.mpr hb')
  rw [shared, smul_smul, if_neg hne]

end VerdeAuth.KeyAgreement
