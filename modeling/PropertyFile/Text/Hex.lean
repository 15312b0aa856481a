/-!
# Hexadecimal numbers

Reading and writing numbers in base sixteen. Reading takes digits of either
case; writing pads with zeros to a given width.
-/

namespace PropertyFile.Text

/-- The value of one hexadecimal digit of either case. -/
def hexDigit? (c : Char) : Option Nat :=
  if '0' ≤ c && c ≤ '9' then some (c.toNat - '0'.toNat)
  else if 'a' ≤ c && c ≤ 'f' then some (c.toNat - 'a'.toNat + 10)
  else if 'A' ≤ c && c ≤ 'F' then some (c.toNat - 'A'.toNat + 10)
  else none

/-- The number that `cs` continues after digits worth `acc`. -/
def hexFrom? (acc : Nat) : List Char → Option Nat
  | [] => some acc
  | c :: cs => (hexDigit? c).bind fun d => hexFrom? (16 * acc + d) cs

/-- The number written by the hexadecimal digits `cs`, if all of them are digits. -/
def hex? (cs : List Char) : Option Nat :=
  hexFrom? 0 cs

/-- The digits for one hexadecimal place, in lower or upper case. -/
inductive HexCase
  | lower
  | upper
deriving DecidableEq, Repr

/-- The digit for a value below sixteen. -/
def HexCase.digit (style : HexCase) (d : Nat) : Char :=
  if d < 10 then Char.ofNat ('0'.toNat + d)
  else match style with
    | .lower => Char.ofNat ('a'.toNat + (d - 10))
    | .upper => Char.ofNat ('A'.toNat + (d - 10))

/-- The digits of `n`, most significant first; zero has one digit. -/
def HexCase.digits (style : HexCase) (n : Nat) : List Char :=
  if n < 16 then [style.digit n] else style.digits (n / 16) ++ [style.digit (n % 16)]

/-- The digits of `n`, padded with zeros in front to at least `width` places. -/
def HexCase.padded (style : HexCase) (width n : Nat) : List Char :=
  let ds := style.digits n
  List.replicate (width - ds.length) '0' ++ ds

theorem hexDigit?_lt {c : Char} {d : Nat} (h : hexDigit? c = some d) : d < 16 := by
  unfold hexDigit? at h
  have key : ∀ a b : Char, a ≤ b ↔ a.toNat ≤ b.toNat := fun a b => Iff.rfl
  simp only [Bool.and_eq_true, decide_eq_true_eq, key] at h
  split at h
  · next hc =>
      obtain rfl := Option.some.inj h
      have : '9'.toNat = '0'.toNat + 9 := rfl
      omega
  · split at h
    · next hc =>
        obtain rfl := Option.some.inj h
        have : 'f'.toNat = 'a'.toNat + 5 := rfl
        omega
    · split at h
      · next hc =>
          obtain rfl := Option.some.inj h
          have : 'F'.toNat = 'A'.toNat + 5 := rfl
          omega
      · simp at h

/-- With `n` digits, a number is below the `n`-th power of 16. -/
theorem hexFrom?_lt {cs : List Char} {acc n : Nat} (h : hexFrom? acc cs = some n) :
    n < (acc + 1) * Nat.pow 16 cs.length := by
  induction cs generalizing acc with
  | nil =>
      obtain rfl := Option.some.inj h
      simp
  | cons c cs ih =>
      obtain ⟨d, hd, hrest⟩ := Option.bind_eq_some_iff.mp h
      have hlt := hexDigit?_lt hd
      refine Nat.lt_of_lt_of_le (ih hrest) ?_
      have hpow : Nat.pow 16 (cs.length + 1) = 16 * Nat.pow 16 cs.length := Nat.mul_comm _ _
      rw [List.length_cons, hpow, ← Nat.mul_assoc]
      exact Nat.mul_le_mul_right _ (by omega)

theorem hex?_lt {cs : List Char} {n : Nat} (h : hex? cs = some n) : n < Nat.pow 16 cs.length := by
  simpa using hexFrom?_lt h

end PropertyFile.Text
