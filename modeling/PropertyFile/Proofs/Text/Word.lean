import PropertyFile.Proofs.Text.Utf16
import PropertyFile.Text.Hex

/-!
# Code points in 32-bit words

**What can go wrong when code points are computed in 32-bit words, and when it does not.**
The operations here give no result where the exact one does not fit a word, so a result
says that nothing overflowed on the way: `add?_eq_some_iff` and its siblings state each
operation on numbers.

Four hexadecimal digits always are a word (`word?_eq_some`), and a surrogate pair is
combined to a code point beyond U+FFFF without overflow (`combine?_eq_some`).
-/

namespace PropertyFile.Text.Word

/-! ### Arithmetic -/

/-- The sum, if it fits. -/
def add? (a b : UInt32) : Option UInt32 :=
  if a.toNat + b.toNat < UInt32.size then some (a + b) else none

/-- The difference, if there is one. -/
def sub? (a b : UInt32) : Option UInt32 :=
  if b ≤ a then some (a - b) else none

/-- The product, if it fits. -/
def mul? (a b : UInt32) : Option UInt32 :=
  if a.toNat * b.toNat < UInt32.size then some (a * b) else none

/-- The bits moved up by `n < 32` places, if none of them is lost. -/
def shiftLeft? (a n : UInt32) : Option UInt32 :=
  if n < 32 ∧ a.toNat <<< n.toNat < UInt32.size then some (a <<< n) else none

variable {a b c : UInt32}

theorem add?_eq_some_iff : add? a b = some c ↔ c.toNat = a.toNat + b.toNat := by
  unfold add?
  split
  · next hfits =>
      have hsum : (a + b).toNat = a.toNat + b.toNat := by
        rw [UInt32.toNat_add, Nat.mod_eq_of_lt hfits]
      rw [Option.some.injEq, ← UInt32.toNat_inj, hsum, eq_comm]
  · next hfits =>
      have hc : c.toNat < UInt32.size := c.toNat_lt
      simp only [reduceCtorEq, false_iff]
      omega

theorem sub?_eq_some_iff : sub? a b = some c ↔ c.toNat + b.toNat = a.toNat := by
  unfold sub?
  split
  · next hle =>
      have hle' := UInt32.le_iff_toNat_le.mp hle
      rw [Option.some.injEq, ← UInt32.toNat_inj, UInt32.toNat_sub_of_le a b hle]
      omega
  · next hle =>
      rw [UInt32.le_iff_toNat_le] at hle
      simp only [reduceCtorEq, false_iff]
      omega

theorem mul?_eq_some_iff : mul? a b = some c ↔ c.toNat = a.toNat * b.toNat := by
  unfold mul?
  split
  · next hfits =>
      have hproduct : (a * b).toNat = a.toNat * b.toNat := by
        rw [UInt32.toNat_mul, Nat.mod_eq_of_lt hfits]
      rw [Option.some.injEq, ← UInt32.toNat_inj, hproduct, eq_comm]
  · next hfits =>
      have hc : c.toNat < UInt32.size := c.toNat_lt
      simp only [reduceCtorEq, false_iff]
      omega

theorem shiftLeft?_eq_some_iff (hb : b < 32) :
    shiftLeft? a b = some c ↔ c.toNat = a.toNat <<< b.toNat := by
  have hb' : b.toNat < 32 := hb
  unfold shiftLeft?
  split
  · next hfits =>
      have hshifted : (a <<< b).toNat = a.toNat <<< b.toNat := by
        rw [UInt32.toNat_shiftLeft, Nat.mod_eq_of_lt hb', Nat.mod_eq_of_lt hfits.2]
      rw [Option.some.injEq, ← UInt32.toNat_inj, hshifted, eq_comm]
  · next hfits =>
      have hc : c.toNat < UInt32.size := c.toNat_lt
      simp only [hb, true_and] at hfits
      simp only [reduceCtorEq, false_iff]
      omega

/-! ### Hexadecimal digits -/

/-- The word that `cs` continues after digits worth `acc`. -/
def wordFrom? (acc : UInt32) : List Char → Option UInt32
  | [] => some acc
  | c :: cs =>
      (hexDigit? c).bind fun d => (mul? acc 16).bind fun shifted =>
        (add? shifted (UInt32.ofNat d)).bind fun next => wordFrom? next cs

/-- The word written by hexadecimal digits, of which there is at least one. A plus sign may
stand in front. -/
def word? : List Char → Option UInt32
  | '+' :: c :: cs => wordFrom? 0 (c :: cs)
  | c :: cs => wordFrom? 0 (c :: cs)
  | [] => none

/-- More digits make no number smaller. -/
theorem le_of_hexFrom? {cs : List Char} {acc n : Nat} (h : hexFrom? acc cs = some n) :
    acc ≤ n := by
  induction cs generalizing acc with
  | nil => exact Nat.le_of_eq (Option.some.inj h)
  | cons c cs ih =>
      obtain ⟨d, -, hrest⟩ := Option.bind_eq_some_iff.mp h
      have hle := ih hrest
      omega

/-- A number that fits is read without overflow. -/
theorem wordFrom?_eq_some {cs : List Char} {acc : UInt32} {n : Nat}
    (h : hexFrom? acc.toNat cs = some n) (hn : n < UInt32.size) :
    wordFrom? acc cs = some (UInt32.ofNat n) := by
  induction cs generalizing acc with
  | nil =>
      obtain rfl := Option.some.inj h
      rw [wordFrom?, UInt32.ofNat_toNat]
  | cons c cs ih =>
      obtain ⟨d, hd, hrest⟩ := Option.bind_eq_some_iff.mp h
      have hle := le_of_hexFrom? hrest
      have htoNat {m : Nat} (hm : m ≤ n) : (UInt32.ofNat m).toNat = m :=
        UInt32.toNat_ofNat_of_lt' (Nat.lt_of_le_of_lt hm hn)
      have hshifted : mul? acc 16 = some (UInt32.ofNat (16 * acc.toNat)) := by
        rw [mul?_eq_some_iff, htoNat (by omega)]
        exact Nat.mul_comm _ _
      have hnext : add? (UInt32.ofNat (16 * acc.toNat)) (UInt32.ofNat d) =
          some (UInt32.ofNat (16 * acc.toNat + d)) := by
        rw [add?_eq_some_iff, htoNat hle, htoNat (by omega), htoNat (by omega)]
      rw [wordFrom?, hd, Option.bind_some, hshifted, Option.bind_some, hnext, Option.bind_some]
      exact ih (by rwa [htoNat hle])

/-- Up to eight digits, of which there is at least one, are a word. -/
theorem word?_eq_some {cs : List Char} {n : Nat} (h : hex? cs = some n) (hne : cs ≠ [])
    (hlength : cs.length ≤ 8) : word? cs = some (UInt32.ofNat n) := by
  have hn : n < UInt32.size := by
    refine Nat.lt_of_lt_of_le (hex?_lt h) ?_
    exact Nat.pow_le_pow_right (n := 16) (by decide) hlength
  have hword : wordFrom? 0 cs = some (UInt32.ofNat n) := wordFrom?_eq_some h hn
  fun_cases word? cs with
  -- A plus sign is no digit.
  | case1 c cs =>
      have hplus : hexDigit? '+' = none := by decide
      simp [hex?, hexFrom?, hplus] at h
  | case2 c cs hplus => exact hword
  | case3 => exact absurd rfl hne

/-! ### Characters -/

/-- The character whose code point a word is. -/
def char? (n : UInt32) : Option Char :=
  if h : n.isValidChar then some ⟨n, h⟩ else none

theorem char?_ofNat {n : Nat} (h : n.isValidChar) :
    char? (UInt32.ofNat n) = some (Char.ofNat n) := by
  have hn : n < 0x110000 := by
    unfold Nat.isValidChar at h
    omega
  have htoNat : (UInt32.ofNat n).toNat = n :=
    UInt32.toNat_ofNat_of_lt' (Nat.lt_of_lt_of_le hn (by decide))
  have hvalid : (UInt32.ofNat n).isValidChar := by rwa [UInt32.isValidChar, htoNat]
  rw [char?, dif_pos hvalid, Option.some.injEq]
  apply Char.ext
  rw [← UInt32.toNat_inj]
  exact htoNat.trans (toNat_ofNat_of_isValidChar h).symm

/-- The code point that a surrogate pair stands for, if no step of its computation
overflows. -/
def combine? (high low : UInt32) : Option UInt32 :=
  (sub? high 0xD800).bind fun offset => (shiftLeft? offset 10).bind fun upper =>
    (add? 0x10000 upper).bind fun base => (sub? low 0xDC00).bind fun lower => add? base lower

variable {high low : UInt32}

/-- Nothing overflows when a surrogate pair is combined. -/
theorem combine?_eq_some (hh : isHighSurrogate high.toNat = true)
    (hl : isLowSurrogate low.toNat = true) :
    combine? high low = some (UInt32.ofNat (pairCodePoint high.toNat low.toNat)) := by
  simp only [isHighSurrogate, isLowSurrogate, Bool.and_eq_true, decide_eq_true_eq] at hh hl
  have htoNat {m : Nat} (hm : m ≤ 0x10FFFF) : (UInt32.ofNat m).toNat = m :=
    UInt32.toNat_ofNat_of_lt' (Nat.lt_of_le_of_lt hm (by decide))
  have hoffset : sub? high 0xD800 = some (UInt32.ofNat (high.toNat - 0xD800)) := by
    rw [sub?_eq_some_iff, htoNat (by omega)]
    exact Nat.sub_add_cancel hh.1
  have hupper : shiftLeft? (UInt32.ofNat (high.toNat - 0xD800)) 10 =
      some (UInt32.ofNat ((high.toNat - 0xD800) * 0x400)) := by
    have hplaces : (10 : UInt32).toNat = 10 := by decide
    have hshift (m : Nat) : m <<< 10 = m * 0x400 := Nat.shiftLeft_eq m 10
    rw [shiftLeft?_eq_some_iff (by decide), htoNat (by omega), htoNat (by omega), hplaces, hshift]
  have hbase : add? 0x10000 (UInt32.ofNat ((high.toNat - 0xD800) * 0x400)) =
      some (UInt32.ofNat (0x10000 + (high.toNat - 0xD800) * 0x400)) := by
    have hfirst : (0x10000 : UInt32).toNat = 0x10000 := by decide
    rw [add?_eq_some_iff, htoNat (by omega), htoNat (by omega), hfirst]
  have hlower : sub? low 0xDC00 = some (UInt32.ofNat (low.toNat - 0xDC00)) := by
    rw [sub?_eq_some_iff, htoNat (by omega)]
    exact Nat.sub_add_cancel hl.1
  have hpoint : add? (UInt32.ofNat (0x10000 + (high.toNat - 0xD800) * 0x400))
      (UInt32.ofNat (low.toNat - 0xDC00)) =
        some (UInt32.ofNat (pairCodePoint high.toNat low.toNat)) := by
    unfold pairCodePoint
    rw [add?_eq_some_iff, htoNat (by omega), htoNat (by omega), htoNat (by omega)]
  rw [combine?, hoffset, Option.bind_some, hupper, Option.bind_some, hbase, Option.bind_some,
    hlower, Option.bind_some, hpoint]

/-- Two surrogates always make up a code point beyond U+FFFF. -/
theorem exists_combine?_eq_some (hh : isHighSurrogate high.toNat = true)
    (hl : isLowSurrogate low.toNat = true) :
    ∃ n, combine? high low = some n ∧ n.toNat = pairCodePoint high.toNat low.toNat ∧
      0x10000 ≤ n.toNat ∧ n.toNat ≤ 0x10FFFF := by
  have hbounds : 0x10000 ≤ pairCodePoint high.toNat low.toNat ∧
      pairCodePoint high.toNat low.toNat ≤ 0x10FFFF := by
    simp only [isHighSurrogate, isLowSurrogate, Bool.and_eq_true, decide_eq_true_eq] at hh hl
    unfold pairCodePoint
    omega
  have htoNat : (UInt32.ofNat (pairCodePoint high.toNat low.toNat)).toNat =
      pairCodePoint high.toNat low.toNat :=
    UInt32.toNat_ofNat_of_lt' (Nat.lt_of_le_of_lt hbounds.2 (by decide))
  refine ⟨_, combine?_eq_some hh hl, htoNat, ?_, ?_⟩
  · exact Nat.le_trans hbounds.1 (Nat.le_of_eq htoNat.symm)
  · exact Nat.le_trans (Nat.le_of_eq htoNat) hbounds.2

end PropertyFile.Text.Word
