import Mathlib.Tactic.Ring
import Mathlib.Order.Basic

/-!
# Fixed-width big-endian encodings

`toBe n v` is the `n`-byte big-endian encoding of `v % 256 ^ n` and `ofBe` reads
such bytes back. On values that fit, the two are inverse and bytewise
(lexicographic) comparison of encodings is comparison of values.
-/

namespace ForStd

/-- The `n` low bytes of `v`, most significant first. -/
def toBe : Nat → Nat → List UInt8
  | 0, _ => []
  | n + 1, v => UInt8.ofNat (v / 256 ^ n) :: toBe n v

/-- The value of a big-endian byte string. -/
def ofBe : List UInt8 → Nat
  | [] => 0
  | b :: bs => b.toNat * 256 ^ bs.length + ofBe bs

@[simp] theorem length_toBe (n v : Nat) : (toBe n v).length = n := by
  induction n with
  | zero => rfl
  | succ n ih => simp only [toBe, List.length_cons, ih]

theorem ofBe_lt (bs : List UInt8) : ofBe bs < 256 ^ bs.length := by
  induction bs with
  | nil => simp [ofBe]
  | cons b bs ih =>
    have hb : b.toNat + 1 ≤ 256 := b.toNat_lt
    calc b.toNat * 256 ^ bs.length + ofBe bs
        < b.toNat * 256 ^ bs.length + 256 ^ bs.length := by omega
      _ = (b.toNat + 1) * 256 ^ bs.length := by ring
      _ ≤ 256 * 256 ^ bs.length := Nat.mul_le_mul_right _ hb
      _ = 256 ^ (b :: bs).length := by rw [List.length_cons]; ring

/-- Decoding an encoding gives back the value modulo the width. -/
theorem ofBe_toBe (n v : Nat) : ofBe (toBe n v) = v % 256 ^ n := by
  induction n with
  | zero => simp [toBe, ofBe, Nat.mod_one]
  | succ n ih =>
    simp only [toBe, ofBe, length_toBe, ih, UInt8.toNat_ofNat', Nat.reducePow]
    rw [Nat.pow_succ, Nat.mod_mul, Nat.mul_comm, Nat.add_comm]

theorem ofBe_toBe_of_lt {n v : Nat} (h : v < 256 ^ n) : ofBe (toBe n v) = v := by
  rw [ofBe_toBe, Nat.mod_eq_of_lt h]

/-- Bytewise comparison of strings of one length is comparison of their values. -/
theorem lt_iff_ofBe_lt {bs cs : List UInt8} (h : bs.length = cs.length) :
    bs < cs ↔ ofBe bs < ofBe cs := by
  induction bs generalizing cs with
  | nil =>
    obtain rfl := List.length_eq_zero_iff.mp h.symm
    simp [ofBe]
  | cons b bs ih =>
    obtain ⟨c, cs, rfl⟩ := List.exists_cons_of_length_eq_add_one h.symm
    have hlen : bs.length = cs.length := by simpa using h
    have hbs := ofBe_lt bs
    have hcs := ofBe_lt cs
    rw [List.cons_lt_cons_iff, ih hlen, UInt8.lt_iff_toNat_lt, ← UInt8.toNat_inj]
    simp only [ofBe]
    rw [hlen] at hbs ⊢
    -- the leading bytes decide unless they agree
    constructor
    · rintro (hlt | ⟨heq, hlt⟩)
      · have : (b.toNat + 1) * 256 ^ cs.length ≤ c.toNat * 256 ^ cs.length :=
          Nat.mul_le_mul_right _ hlt
        rw [Nat.add_mul] at this
        omega
      · rw [heq]; omega
    · intro hlt
      rcases Nat.lt_trichotomy b.toNat c.toNat with hb | hb | hb
      · exact .inl hb
      · rw [hb] at hlt
        exact .inr ⟨hb, by omega⟩
      · have : (c.toNat + 1) * 256 ^ cs.length ≤ b.toNat * 256 ^ cs.length :=
          Nat.mul_le_mul_right _ hb
        rw [Nat.add_mul] at this
        omega

/-- Strings of one length are determined by their values. -/
theorem ofBe_inj {bs cs : List UInt8} (h : bs.length = cs.length) :
    ofBe bs = ofBe cs ↔ bs = cs := by
  refine ⟨fun heq => ?_, fun heq => by rw [heq]⟩
  have hbs : ¬ bs < cs := by rw [lt_iff_ofBe_lt h, heq]; exact Nat.lt_irrefl _
  have hcs : ¬ cs < bs := by rw [lt_iff_ofBe_lt h.symm, heq]; exact Nat.lt_irrefl _
  exact List.le_antisymm hcs hbs

/-- Encoding a value that was decoded gives back the bytes. -/
theorem toBe_ofBe (bs : List UInt8) : toBe bs.length (ofBe bs) = bs :=
  (ofBe_inj (length_toBe ..)).mp (ofBe_toBe_of_lt (ofBe_lt bs))

/-- Bytewise order of encodings is the order of the encoded values. -/
theorem toBe_lt_toBe_iff {n v w : Nat} (hv : v < 256 ^ n) (hw : w < 256 ^ n) :
    toBe n v < toBe n w ↔ v < w := by
  rw [lt_iff_ofBe_lt (by simp), ofBe_toBe_of_lt hv, ofBe_toBe_of_lt hw]

end ForStd
