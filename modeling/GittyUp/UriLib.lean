import GittyUp.Lib.Bytes
/-!
# URI decoding

`src/uri_lib.cc`. `HexToChar` reads a `short` from a stream in base 16, so it
skips white space and takes a sign and the prefix `0x`, and stops at the first
byte that is no digit.
-/
open Lib

namespace GittyUp

def hexVal (c : Byte) : Nat :=
  if isDigit c then c.toNat - 48 else if 'a' ≤ c then c.toNat - 87 else c.toNat - 55

def hexNum (s : Str) : Nat := s.foldl (fun n c => 16 * n + hexVal c) 0

def decodeFailure : StdException := .runtimeError "stream decode failure"

/-- The digits behind sign and prefix, as a `short` cast to `unsigned char`. -/
def hexDigits (neg : Bool) (s : Str) : Except StdException Byte :=
  let ds := s.takeWhile isHexDigit
  let v : Int := if neg then -(hexNum ds : Int) else hexNum ds
  if ds ≠ [] ∧ -2 ^ 15 ≤ v ∧ v < 2 ^ 15 then .ok (UInt8.ofInt v) else .error decodeFailure

/-- Without the prefix `0x`. -/
def dropHexPrefix (s : Str) : Str :=
  match s with
  | z :: x :: s' => if z = '0' ∧ (x = 'x' ∨ x = 'X') then s' else s
  | _ => s

/-- `HexToChar`. -/
def hexToChar (s : Str) : Except StdException Byte :=
  if s = [] then .ok 0
  else
    match s.dropWhile isSpace with
    | [] => .error decodeFailure
    | c :: s' =>
      if c = '-' then hexDigits true (dropHexPrefix s')
      else if c = '+' then hexDigits false (dropHexPrefix s')
      else hexDigits false (dropHexPrefix (c :: s'))

/-- The byte that `UriDecode` writes for `c`, when `s` is behind it. -/
def decodeByte (c : Byte) (s : Str) : Except StdException Byte :=
  if c = '%' then hexToChar (s.take 2) else if c = '+' then .ok (' ' : Char) else .ok c

/-- The loop of `UriDecode`, which has yet to skip `skip` bytes of an escape. -/
def uriDecodeLoop : Nat → Str → Except StdException Str
  | _, [] => .ok []
  | skip + 1, _ :: s => uriDecodeLoop skip s
  | 0, c :: s => do
    let d ← decodeByte c s
    let ds ← uriDecodeLoop (if c = '%' then 2 else 0) s
    return d :: ds

/-- `UriDecode`. -/
def uriDecode (toDecode : Str) : Except StdException Str := uriDecodeLoop 0 toDecode

theorem hexDigits_error {neg : Bool} {s : Str} {e : StdException} (h : hexDigits neg s = .error e) :
    e = decodeFailure := by
  unfold hexDigits at h
  cases neg <;> simp only [Bool.false_eq_true, if_true, if_false] at h <;> split at h <;> cases h <;> rfl

theorem hexToChar_error {s : Str} {e : StdException} (h : hexToChar s = .error e) : e = decodeFailure := by
  unfold hexToChar at h
  split at h
  · cases h
  · split at h
    · cases h
      rfl
    · split at h
      · exact hexDigits_error h
      · split at h <;> exact hexDigits_error h

/-- Decoding throws nothing but the failure of the stream. -/
theorem uriDecodeLoop_error {s : Str} {e : StdException} : ∀ {skip : Nat}, uriDecodeLoop skip s = .error e →
    e = decodeFailure := by
  induction s with
  | nil => intro skip h; cases skip <;> cases h
  | cons c s ih =>
    intro skip h
    cases skip with
    | succ skip => exact ih h
    | zero =>
      unfold uriDecodeLoop at h
      cases hd : decodeByte c s with
      | error e' =>
        rw [hd] at h
        cases h
        unfold decodeByte at hd
        split at hd
        · exact hexToChar_error hd
        · split at hd <;> cases hd
      | ok d =>
        rw [hd] at h
        cases hs : uriDecodeLoop (if c = '%' then 2 else 0) s with
        | error e' =>
          rw [hs] at h
          cases h
          exact ih hs
        | ok ds => rw [hs] at h; cases h

theorem uriDecode_error {s : Str} {e : StdException} (h : uriDecode s = .error e) : e = decodeFailure :=
  uriDecodeLoop_error h

/-! ## Decoding what a browser encodes -/

theorem uriDecodeLoop_plain {c : Byte} (h1 : c ≠ '%') (h2 : c ≠ '+') {s t : Str} (h : uriDecodeLoop 0 s = .ok t) :
    uriDecodeLoop 0 (c :: s) = .ok (c :: t) := by
  rw [uriDecodeLoop, decodeByte, if_neg h1, if_neg h2, if_neg h1, h]
  rfl

theorem uriDecodeLoop_plus {s t : Str} (h : uriDecodeLoop 0 s = .ok t) :
    uriDecodeLoop 0 (('+' : Char) :: s) = .ok ((' ' : Char) :: t) := by
  rw [uriDecodeLoop, decodeByte, if_neg (by decide), if_pos rfl, if_neg (by decide), h]
  rfl

/-- The lower-case hex digit of a number below 16. -/
def hexDigit (n : Nat) : Byte := UInt8.ofNat (if n < 10 then 48 + n else 87 + n)

theorem hexDigit_spec : ∀ n < 16, isHexDigit (hexDigit n) ∧ hexVal (hexDigit n) = n := by decide

/-- A hex digit starts no sign and no white space, and ends no prefix. -/
theorem isHexDigit_cases {c : Byte} (h : isHexDigit c) :
    isSpace c = false ∧ c ≠ '-' ∧ c ≠ '+' ∧ c ≠ 'x' ∧ c ≠ 'X' ∧ hexVal c < 16 := by
  refine ⟨?_, ?_, ?_, ?_, ?_, ?_⟩
  · simp [isHexDigit, isDigit, isSpace, UInt8.le_iff_toNat_le, ← UInt8.toNat_inj] at h ⊢
    omega
  · rintro rfl; exact absurd h (by decide)
  · rintro rfl; exact absurd h (by decide)
  · rintro rfl; exact absurd h (by decide)
  · rintro rfl; exact absurd h (by decide)
  · simp [isHexDigit, isDigit, UInt8.le_iff_toNat_le] at h
    simp [hexVal, isDigit, UInt8.le_iff_toNat_le]
    split <;> [skip; split] <;> omega

/-- Two hex digits stand for their byte. -/
theorem hexToChar_digits {c h l : Byte} (hh : isHexDigit h) (hl : isHexDigit l)
    (hc : 16 * hexVal h + hexVal l = c.toNat) : hexToChar [h, l] = .ok c := by
  obtain ⟨h1, h2, h3, -, -, h4⟩ := isHexDigit_cases hh
  obtain ⟨-, -, -, l1, l2, l3⟩ := isHexDigit_cases hl
  have hnum : (hexNum [h, l] : Int) = c.toNat := by rw [← hc]; simp [hexNum]
  have hlt : c.toNat < 256 := UInt8.toNat_lt c
  unfold hexToChar
  rw [if_neg (by simp), List.dropWhile_cons_of_neg (by simp [h1])]
  simp only [h2, h3, if_false]
  have hp : dropHexPrefix [h, l] = [h, l] := by
    unfold dropHexPrefix
    exact if_neg fun hx => hx.2.elim l1 l2
  unfold hexDigits
  rw [hp]
  have hall : [h, l].takeWhile isHexDigit = [h, l] := by simp [hh, hl]
  simp only [hall, Bool.false_eq_true, if_false, hnum]
  rw [if_pos ⟨by simp, by omega, by omega⟩, UInt8.ofInt]
  have : ((c.toNat : Int) % 2 ^ 8).toNat = c.toNat := by omega
  rw [this, UInt8.ofNat_toNat]

theorem uriDecodeLoop_escape {c h l : Byte} (hh : isHexDigit h) (hl : isHexDigit l)
    (hc : 16 * hexVal h + hexVal l = c.toNat) {s t : Str} (hs : uriDecodeLoop 0 s = .ok t) :
    uriDecodeLoop 0 (('%' : Char) :: h :: l :: s) = .ok (c :: t) := by
  have hd : decodeByte ('%' : Char) (h :: l :: s) = .ok c := by
    rw [decodeByte, if_pos rfl]
    exact hexToChar_digits hh hl hc
  rw [uriDecodeLoop, hd, if_pos rfl]
  show (do let ds ← uriDecodeLoop 0 s; return c :: ds) = _
  rw [hs]
  rfl

end GittyUp
