import Mathlib.Algebra.Order.Ring.Int
import Mathlib.Data.List.Basic
import Mathlib.Data.List.TakeWhile
import Mathlib.Tactic.Common
/-!
# Byte strings

A C++ `std::string` is a list of bytes: it may hold NUL, and a `char` literal
stands for its byte. `cStr` is what is left of a string that goes through
`c_str()`; `dec` and `stoi` are `std::to_string` and `std::stoi`.
-/

namespace Lib

abbrev Byte := UInt8
abbrev Str := List Byte

/-- What is said of every byte of a string is decided along the string, not for all bytes. -/
instance (priority := 2000) decidableForallMem (p : Byte → Prop) [DecidablePred p] (s : Str) :
    Decidable (∀ c ∈ s, p c) := List.decidableBAll p s

/-- So is what is said of a byte that may be missing. -/
instance (priority := 2000) decidableForallMemOption (p : Byte → Prop) [DecidablePred p] (o : Option Byte) :
    Decidable (∀ c ∈ o, p c) := Option.decidableForallMem o

instance lawfulBEqStr : LawfulBEq Str := inferInstance

instance : Coe Char Byte := ⟨fun c => UInt8.ofNat c.toNat⟩

/-- The bytes of an (ASCII) literal. -/
def str (s : String) : Str := s.toList.map (fun c : Char => (c : Byte))

instance : Coe String Str := ⟨str⟩

theorem str_append (s t : String) : str (s ++ t) = str s ++ str t := by
  unfold str
  rw [String.toList_append, List.map_append]

/-- A string read back from a NUL-terminated copy of it. -/
def cStr (s : Str) : Str := s.takeWhile (· ≠ 0)

theorem cStr_of_noNul {s : Str} (h : ∀ c ∈ s, c ≠ 0) : cStr s = s := by
  rw [cStr, List.takeWhile_eq_self_iff]
  simpa using h

theorem cStr_append_of_noNul {s : Str} (h : ∀ c ∈ s, c ≠ 0) (t : Str) : cStr (s ++ t) = s ++ cStr t :=
  List.takeWhile_append_of_pos (by simpa using h)

theorem cStr_append_of_mem {s : Str} (h : 0 ∈ s) (t : Str) : cStr (s ++ t) = cStr s := by
  induction s with
  | nil => cases h
  | cons c s ih =>
    by_cases hc : c = 0
    · simp [cStr, hc]
    · have := ih ((List.mem_cons.1 h).resolve_left (Ne.symm hc))
      unfold cStr at this ⊢
      rw [List.cons_append, List.takeWhile_cons_of_pos (by simpa using hc), List.takeWhile_cons_of_pos (by simpa using hc),
        this]

theorem noNul_cStr (s : Str) : ∀ c ∈ cStr s, c ≠ 0 :=
  fun c hc => by simpa using List.mem_takeWhile_imp hc

/-- A string without a terminator reads back as itself if there is no NUL in it and one behind it. -/
theorem cStr_append_eq_iff (s t : Str) : cStr (s ++ t) = s ↔ (∀ c ∈ s, c ≠ 0) ∧ cStr t = [] := by
  constructor
  · intro h
    have hs : ∀ c ∈ s, c ≠ 0 := by
      rw [← h]
      exact noNul_cStr _
    rw [cStr_append_of_noNul hs] at h
    exact ⟨hs, List.append_right_eq_self.1 h⟩
  · rintro ⟨hs, ht⟩
    rw [cStr_append_of_noNul hs, ht, List.append_nil]

/-- A NUL is found inside a string if and only if it has one. -/
theorem length_cStr_append_lt_iff (s t : Str) : (cStr (s ++ t)).length < s.length ↔ 0 ∈ s := by
  constructor
  · intro h
    by_contra hs
    rw [cStr_append_of_noNul fun c hc h0 => hs (h0 ▸ hc), List.length_append] at h
    omega
  · intro hs
    rw [cStr_append_of_mem hs]
    refine (List.takeWhile_prefix _).length_le.lt_of_ne fun h => ?_
    have he : cStr s = s := (List.takeWhile_prefix _).eq_of_length h
    rw [← he] at hs
    exact noNul_cStr s 0 hs rfl

/-! ## Runs of a character class -/

/-- The text does not begin with a character of the class. -/
def StopsAt (p : Byte → Bool) (s : Str) : Prop := ∀ c ∈ s.head?, p c = false

theorem span_run (p : Byte → Bool) (s : Str) :
    s = s.takeWhile p ++ s.dropWhile p ∧ (∀ c ∈ s.takeWhile p, p c) ∧ StopsAt p (s.dropWhile p) := by
  refine ⟨List.takeWhile_append_dropWhile.symm, fun c hc => List.mem_takeWhile_imp hc, fun c hc => ?_⟩
  have := List.head?_dropWhile_not p s
  rw [Option.mem_def.1 hc] at this
  simpa using this

theorem takeWhile_run {p : Byte → Bool} {w t : Str} (hw : ∀ c ∈ w, p c) (ht : StopsAt p t) :
    (w ++ t).takeWhile p = w := by
  rw [List.takeWhile_append_of_pos hw]
  cases t with
  | nil => simp
  | cons c t => rw [List.takeWhile_cons_of_neg (by simp [ht c rfl]), List.append_nil]

theorem dropWhile_run {p : Byte → Bool} {w t : Str} (hw : ∀ c ∈ w, p c) (ht : StopsAt p t) :
    (w ++ t).dropWhile p = t := by
  rw [List.dropWhile_append_of_pos hw]
  cases t with
  | nil => rfl
  | cons c t => rw [List.dropWhile_cons_of_neg (by simp [ht c rfl])]

theorem take_sub_dropWhile (p : Byte → Bool) (s : Str) :
    s.take (s.length - (s.dropWhile p).length) = s.takeWhile p := by
  have h : s.length = (s.takeWhile p).length + (s.dropWhile p).length := by
    rw [← List.length_append, List.takeWhile_append_dropWhile]
  rw [h, Nat.add_sub_cancel]
  exact (List.prefix_iff_eq_take.1 (List.takeWhile_prefix p)).symm

theorem take_sub_append (s t : Str) : (s ++ t).take ((s ++ t).length - t.length) = s := by
  rw [List.length_append, Nat.add_sub_cancel, List.take_left]

theorem takeWhile_append_stop {p : Byte → Bool} {c : Byte} (hc : p c = false) (s t : Str) :
    (s ++ c :: t).takeWhile p = s.takeWhile p := by
  induction s with
  | nil => exact List.takeWhile_cons_of_neg (by simp [hc])
  | cons d s ih => by_cases hd : p d <;> simp [hd, ih]

theorem dropWhile_append_stop {p : Byte → Bool} {c : Byte} (hc : p c = false) (s t : Str) :
    (s ++ c :: t).dropWhile p = s.dropWhile p ++ c :: t := by
  induction s with
  | nil => exact List.dropWhile_cons_of_neg (by simp [hc])
  | cons d s ih => by_cases hd : p d <;> simp [hd, ih]

/-! ## Character classes of the C locale -/

def isDigit (c : Byte) : Bool := '0' ≤ c && c ≤ '9'

def isHexDigit (c : Byte) : Bool := isDigit c || ('a' ≤ c && c ≤ 'f') || ('A' ≤ c && c ≤ 'F')

/-- Letters, digits and the underscore. -/
def isWord (c : Byte) : Bool := isDigit c || ('a' ≤ c && c ≤ 'z') || ('A' ≤ c && c ≤ 'Z') || c = '_'

def isSpace (c : Byte) : Bool := c = ' ' || ('\t' ≤ c && c ≤ '\r')

/-- A statement about all bytes can be evaluated. -/
theorem forall_byte {P : Byte → Prop} (h : ∀ n : Fin 256, P (UInt8.ofNat n)) (c : Byte) : P c := by
  have := h ⟨c.toNat, UInt8.toNat_lt c⟩
  rwa [UInt8.ofNat_toNat] at this

/-! ## Decimal text -/

/-- `std::to_string` of a number that is not negative. -/
def dec (n : Nat) : Str := (Nat.toDigits 10 n).map (fun c : Char => (c : Byte))

/-- `std::to_string`. -/
def decInt : Int → Str
  | .ofNat n => dec n
  | .negSucc n => '-' :: dec (n + 1)

/-- The number a run of decimal digits stands for. -/
def digitsVal (s : Str) : Nat := s.foldl (fun n c => 10 * n + (c.toNat - 48)) 0

/-- The exceptions that the program lets the standard library or itself throw. -/
inductive StdException
  | invalidArgument
  | outOfRange
  | runtimeError (what : Str)
  deriving DecidableEq, Repr

/-- The digits after the sign, as an `int`. -/
def stoiDigits (neg : Bool) (s : Str) : Except StdException Int :=
  let ds := s.takeWhile isDigit
  let v : Int := if neg then -(digitsVal ds : Int) else digitsVal ds
  if ds = [] then .error .invalidArgument
  else if -2 ^ 31 ≤ v ∧ v < 2 ^ 31 then .ok v
  else .error .outOfRange

/-- `std::stoi`: leading white space, a sign, then as many digits as follow. -/
def stoi (s : Str) : Except StdException Int :=
  match s.dropWhile isSpace with
  | [] => .error .invalidArgument
  | c :: s' => if c = '-' then stoiDigits true s' else if c = '+' then stoiDigits false s' else stoiDigits false (c :: s')

/-- A decimal digit as a byte has the digit's value. -/
theorem toNat_digit {d : Char} (h : d.isDigit = true) : (d : Byte).toNat = d.toNat ∧ 48 ≤ d.toNat ∧ d.toNat ≤ 57 := by
  have h' : 48 ≤ d.toNat ∧ d.toNat ≤ 57 := Char.isDigit_iff_toNat.1 h
  refine ⟨?_, h'⟩
  rw [UInt8.toNat_ofNat', Nat.mod_eq_of_lt (by omega)]

theorem dec_digits (n : Nat) : ∀ c ∈ dec n, isDigit c = true := by
  intro c hc
  obtain ⟨d, hd, rfl⟩ := List.mem_map.1 hc
  obtain ⟨e, h1, h2⟩ := toNat_digit (Nat.isDigit_of_mem_toDigits (b := 10) (by decide) (by decide) hd)
  simp only [isDigit, Bool.and_eq_true, decide_eq_true_eq, UInt8.le_iff_toNat_le, e]
  exact ⟨h1, h2⟩

theorem dec_ne_nil (n : Nat) : dec n ≠ [] := by
  simp [dec, Nat.toDigits_ne_nil]

theorem digitsVal_map (l : List Char) (h : ∀ d ∈ l, d.isDigit = true) :
    digitsVal (l.map (fun c : Char => (c : Byte))) = Nat.ofDigitChars 10 l 0 := by
  rw [digitsVal, Nat.ofDigitChars, List.foldl_map]
  refine List.foldl_ext _ _ _ (fun n d hd => ?_)
  rw [(toNat_digit (h d hd)).1]; rfl

@[simp] theorem digitsVal_dec (n : Nat) : digitsVal (dec n) = n := by
  rw [dec, digitsVal_map _ fun d hd => Nat.isDigit_of_mem_toDigits (by decide) (by decide) hd]
  exact Nat.ofDigitChars_ten_toDigits

theorem dec_injective : Function.Injective dec :=
  Function.LeftInverse.injective (g := digitsVal) digitsVal_dec

/-- A digit starts no sign and no white space. -/
theorem isDigit_cases {c : Byte} (h : isDigit c = true) : isSpace c = false ∧ c ≠ '-' ∧ c ≠ '+' := by
  simp only [isDigit, Bool.and_eq_true, decide_eq_true_eq, UInt8.le_iff_toNat_le] at h
  refine ⟨?_, ?_, ?_⟩
  · simp [isSpace, UInt8.le_iff_toNat_le, ← UInt8.toNat_inj] at h ⊢; omega
  · rintro rfl; exact absurd h (by decide)
  · rintro rfl; exact absurd h (by decide)

/-- Decimal text is read as its number, as far as an `int` goes. -/
theorem stoi_dec_eq (n : Nat) : stoi (dec n) = if n < 2 ^ 31 then .ok (n : Int) else .error .outOfRange := by
  have hall : (dec n).takeWhile isDigit = dec n := List.takeWhile_eq_self_iff.2 (dec_digits n)
  have hv : stoiDigits false (dec n) = if n < 2 ^ 31 then .ok (n : Int) else .error .outOfRange := by
    simp only [stoiDigits, hall, dec_ne_nil, digitsVal_dec, Bool.false_eq_true, if_false]
    exact if_congr (by omega) rfl rfl
  obtain ⟨c, s, hs⟩ := List.exists_cons_of_ne_nil (dec_ne_nil n)
  obtain ⟨h1, h2, h3⟩ := isDigit_cases (dec_digits n c (by simp [hs]))
  rw [stoi, hs, List.dropWhile_cons_of_neg (by simp [h1])]
  simp only [h2, h3, if_false]
  rw [← hs, hv]

/-- Reading back what `std::to_string` wrote. -/
theorem stoi_dec {n : Nat} (h : n < 2 ^ 31) : stoi (dec n) = .ok (n : Int) := by
  rw [stoi_dec_eq, if_pos h]

theorem stoi_decInt {n : Int} (h : -2 ^ 31 ≤ n ∧ n < 2 ^ 31) : stoi (decInt n) = .ok n := by
  cases n with
  | ofNat n =>
    have hlt : (n : Int) < 2 ^ 31 := h.2
    exact stoi_dec (by omega)
  | negSucc n =>
    have hall : (dec (n + 1)).takeWhile isDigit = dec (n + 1) := List.takeWhile_eq_self_iff.2 (dec_digits _)
    have hneg : -((n + 1 : Nat) : Int) = Int.negSucc n := rfl
    rw [decInt, stoi, List.dropWhile_cons_of_neg (by decide)]
    simp only [if_true, stoiDigits, hall, dec_ne_nil, digitsVal_dec, if_false, hneg, h, and_self]

/-- What `std::stoi` returns is an `int`. -/
theorem stoi_range {s : Str} {n : Int} (h : stoi s = .ok n) : -2 ^ 31 ≤ n ∧ n < 2 ^ 31 := by
  have digits : ∀ {neg : Bool} {t : Str}, stoiDigits neg t = .ok n → -2 ^ 31 ≤ n ∧ n < 2 ^ 31 := by
    intro neg t h
    simp only [stoiDigits] at h
    split_ifs at h
    · cases h; assumption
    · cases h; assumption
  unfold stoi at h
  split at h
  · cases h
  · split_ifs at h
    · exact digits h
    · exact digits h
    · exact digits h

end Lib
