import GittyUp.UriLib
/-!
# The URI codec

`UriEncode` of `src/uri_lib.cc`, and which texts `UriDecode` accepts. The
decoder reads what is behind a percent sign from a stream, which may stop early:
`decodes_iff` says when it takes an escape that is none.
-/
open Lib

namespace GittyUp

/-! ## Encoding -/

/-- `CharToHex`: `std::setw(2)` pads the digits of `i` with zeros. -/
def charToHex (c : Byte) : Str :=
  let i := c.toNat
  let digits := (Nat.toDigits 16 i).map fun d : Char => (d : Byte)
  str "%" ++ List.replicate (2 - digits.length) ((('0' : Char) : Byte)) ++ digits

/-- The text that `UriEncode` writes for a `char`, which is signed. -/
def encodeChar (c : Byte) : Str :=
  let t := c.toInt8.toInt
  if t = 45 ∨ (t ≥ 48 ∧ t ≤ 57) ∨ (t ≥ 65 ∧ t ≤ 90) ∨ t = 95 ∨ (t ≥ 97 ∧ t ≤ 122) ∨ t = 126 then [c]
  else charToHex c

/-- `UriEncode`. -/
def uriEncode (toEncode : Str) : Str := toEncode.flatMap encodeChar

/-- Letters, digits, and `-`, `_` and `~`. -/
def isSafe (c : Byte) : Bool := isWord c || c = '-' || c = '~'

def isLowerHex (c : Byte) : Bool := isDigit c || ('a' ≤ c && c ≤ 'f')

/-- A safe byte, or a percent sign with two digits. -/
def Group (g : Str) : Prop :=
  (∃ c, g = [c] ∧ isSafe c) ∨ ∃ h l, g = [(('%' : Char) : Byte), h, l] ∧ isLowerHex h ∧ isLowerHex l

/-- A byte is written as it is or as its two digits. -/
theorem encodeChar_eq (c : Byte) : encodeChar c =
    if isSafe c then [c] else [(('%' : Char) : Byte), hexDigit (c.toNat / 16), hexDigit (c.toNat % 16)] := by
  revert c
  exact forall_byte (by decide +kernel)

theorem isLowerHex_digit : ∀ n < 16, isLowerHex (hexDigit n) := by decide

theorem encodeChar_group (c : Byte) : Group (encodeChar c) := by
  have hlt : c.toNat < 256 := UInt8.toNat_lt c
  rw [encodeChar_eq]
  split
  · rename_i hc
    exact .inl ⟨c, rfl, hc⟩
  · exact .inr ⟨_, _, rfl, isLowerHex_digit _ (by omega), isLowerHex_digit _ (by omega)⟩

/-- None of the decoder's special bytes is safe. -/
theorem isSafe_plain {c : Byte} (h : isSafe c) : c ≠ '%' ∧ c ≠ '+' := by
  constructor
  · rintro rfl
    exact absurd h (by decide)
  · rintro rfl
    exact absurd h (by decide)

theorem decode_encodeChar (c : Byte) {s t : Str} (hs : uriDecodeLoop 0 s = .ok t) :
    uriDecodeLoop 0 (encodeChar c ++ s) = .ok (c :: t) := by
  have hlt : c.toNat < 256 := UInt8.toNat_lt c
  rw [encodeChar_eq]
  split
  · rename_i hc
    exact uriDecodeLoop_plain (isSafe_plain hc).1 (isSafe_plain hc).2 hs
  · obtain ⟨hh, h1⟩ := hexDigit_spec (c.toNat / 16) (by omega)
    obtain ⟨hl, h2⟩ := hexDigit_spec (c.toNat % 16) (by omega)
    exact uriDecodeLoop_escape hh hl (by omega) hs

theorem uriDecode_uriEncode (s : Str) : uriDecode (uriEncode s) = .ok s := by
  unfold uriDecode uriEncode
  induction s with
  | nil => rfl
  | cons c s ih =>
    rw [List.flatMap_cons]
    exact decode_encodeChar c ih

/-- Decoding gives back what was encoded, and the encoded text is made of safe
bytes and of escapes with lower-case digits. -/
theorem decode_encode (s : Str) : uriDecode (uriEncode s) = .ok s ∧
    ∃ groups : List Str, uriEncode s = groups.flatten ∧ ∀ g ∈ groups, Group g := by
  refine ⟨uriDecode_uriEncode s, s.map encodeChar, List.flatMap_def, fun g hg => ?_⟩
  obtain ⟨c, -, rfl⟩ := List.mem_map.1 hg
  exact encodeChar_group c

/-! ## What the decoder accepts -/

/-- The bytes behind each percent sign that starts an escape, two of them if there
are so many: an escape is skipped before the next one is looked for. -/
def escapes : Nat → Str → List Str
  | _, [] => []
  | skip + 1, _ :: s => escapes skip s
  | 0, c :: s => if c = '%' then s.take 2 :: escapes 2 s else escapes 0 s

/-- The text that an encoded text stands for. -/
inductive Decodes : Str → Str → Prop
  | nil : Decodes [] []
  | escape {c h l : Byte} {s t : Str} : isHexDigit h → isHexDigit l → 16 * hexVal h + hexVal l = c.toNat →
      Decodes s t → Decodes ((('%' : Char) : Byte) :: h :: l :: s) (c :: t)
  | plus {s t : Str} : Decodes s t → Decodes ((('+' : Char) : Byte) :: s) ((' ' : Char) :: t)
  | plain {c : Byte} {s t : Str} : c ≠ '%' → c ≠ '+' → Decodes s t → Decodes (c :: s) (c :: t)

/-- Two hexadecimal digits. -/
def TwoDigits (e : Str) : Prop := ∃ h l, e = [h, l] ∧ isHexDigit h ∧ isHexDigit l

/-- What `HexToChar` reads without an error: nothing at all, a digit with anything
behind it that does not make it a prefix `0x`, or a digit behind a blank or a sign. -/
def Readable : Str → Prop
  | [] => True
  | [c] => isHexDigit c
  | c :: d :: _ =>
    (isHexDigit c ∧ ¬ (c = '0' ∧ (d = 'x' ∨ d = 'X'))) ∨ ((isSpace c ∨ c = '-' ∨ c = '+') ∧ isHexDigit d)

theorem hexVal_lt {c : Byte} (h : isHexDigit c) : hexVal c < 16 := (isHexDigit_cases h).2.2.2.2.2

/-- Of two bytes at most, the digits always make a `short`. -/
theorem hexDigits_ok_iff (neg : Bool) {s : Str} (hlen : s.length ≤ 2) :
    (∃ b, hexDigits neg s = .ok b) ↔ s.takeWhile isHexDigit ≠ [] := by
  have hbound : hexNum (s.takeWhile isHexDigit) < 256 := by
    have hall : ∀ c ∈ s.takeWhile isHexDigit, isHexDigit c := fun c hc => List.mem_takeWhile_imp hc
    have hle : (s.takeWhile isHexDigit).length ≤ 2 := (List.takeWhile_prefix _).length_le.trans hlen
    generalize s.takeWhile isHexDigit = ds at hall hle
    rcases ds with _ | ⟨c, _ | ⟨d, _ | ⟨e, ds⟩⟩⟩
    · decide
    · have := hexVal_lt (hall c (by simp))
      simp [hexNum]
      omega
    · have h1 := hexVal_lt (hall c (by simp))
      have h2 := hexVal_lt (hall d (by simp))
      simp [hexNum]
      omega
    · simp at hle
  unfold hexDigits
  cases neg with
  | false =>
    by_cases h : s.takeWhile isHexDigit = []
    · simp [h]
    · simp only [Bool.false_eq_true, if_false, ne_eq, h, not_false_eq_true, true_and, iff_true]
      rw [if_pos (by omega)]
      exact ⟨_, rfl⟩
  | true =>
    by_cases h : s.takeWhile isHexDigit = []
    · simp [h]
    · simp only [if_true, ne_eq, h, not_false_eq_true, true_and, iff_true]
      rw [if_pos (by omega)]
      exact ⟨_, rfl⟩

theorem takeWhile_cons_ne_nil {p : Byte → Bool} {c : Byte} {s : Str} : (c :: s).takeWhile p ≠ [] ↔ p c := by
  by_cases h : p c
  · simp [h]
  · simp [h]

theorem dropHexPrefix_short {s : Str} (h : s.length ≤ 1) : dropHexPrefix s = s := by
  rcases s with _ | ⟨c, _ | ⟨d, s⟩⟩
  · rfl
  · rfl
  · simp at h

/-- A single byte is read if it is a digit. -/
theorem hexToChar_one_iff (c : Byte) : (∃ b, hexToChar [c] = .ok b) ↔ isHexDigit c := by
  have hsign : ∀ neg, ¬ ∃ b, hexDigits neg (dropHexPrefix []) = .ok b := fun neg => by
    rw [dropHexPrefix_short (by decide), hexDigits_ok_iff neg (by decide)]
    simp
  unfold hexToChar
  rw [if_neg (List.cons_ne_nil _ _)]
  by_cases hs : isSpace c
  · have hd : ¬ isHexDigit c := fun h => by simp [(isHexDigit_cases h).1] at hs
    simp [hs, hd]
  · rw [List.dropWhile_cons_of_neg (by simpa using hs)]
    by_cases hm : c = '-'
    · subst hm
      simp only [if_true]
      exact iff_of_false (hsign true) (by decide)
    · by_cases hp : c = '+'
      · subst hp
        simp only [hm, if_true, if_false]
        exact iff_of_false (hsign false) (by decide)
      · simp only [hm, hp, if_false]
        rw [dropHexPrefix_short (by simp), hexDigits_ok_iff false (by simp), takeWhile_cons_ne_nil]

/-- A sign is followed by digits. -/
theorem hexDigits_one_iff (neg : Bool) (d : Byte) :
    (∃ b, hexDigits neg (dropHexPrefix [d]) = .ok b) ↔ isHexDigit d := by
  rw [dropHexPrefix_short (by simp), hexDigits_ok_iff neg (by simp), takeWhile_cons_ne_nil]

/-- A prefix has no digits behind it in two bytes. -/
theorem hexDigits_two_iff (c d : Byte) : (∃ b, hexDigits false (dropHexPrefix [c, d]) = .ok b) ↔
    isHexDigit c ∧ ¬ (c = '0' ∧ (d = 'x' ∨ d = 'X')) := by
  unfold dropHexPrefix
  by_cases hx : c = '0' ∧ (d = 'x' ∨ d = 'X')
  · simp only [hx, and_self, if_true]
    rw [hexDigits_ok_iff false (by simp)]
    simp
  · simp only [hx, if_false]
    rw [hexDigits_ok_iff false (by simp), takeWhile_cons_ne_nil]
    simp

theorem hexToChar_two_iff (c d : Byte) : (∃ b, hexToChar [c, d] = .ok b) ↔ Readable [c, d] := by
  have hdigit : ∀ {x : Byte}, isHexDigit x → isSpace x = false ∧ x ≠ '-' ∧ x ≠ '+' := fun h =>
    ⟨(isHexDigit_cases h).1, (isHexDigit_cases h).2.1, (isHexDigit_cases h).2.2.1⟩
  unfold Readable
  by_cases hs : isSpace c
  · -- a blank is skipped
    have hd : ¬ isHexDigit c := fun h => by simp [(hdigit h).1] at hs
    have hskip : hexToChar [c, d] = hexToChar [d] := by
      unfold hexToChar
      rw [if_neg (List.cons_ne_nil _ _), if_neg (List.cons_ne_nil _ _), List.dropWhile_cons_of_pos hs]
    rw [hskip, hexToChar_one_iff]
    simp [hs, hd]
  · unfold hexToChar
    rw [if_neg (List.cons_ne_nil _ _), List.dropWhile_cons_of_neg (by simpa using hs)]
    by_cases hm : c = '-'
    · have hd : ¬ isHexDigit c := fun h => (hdigit h).2.1 hm
      simp only [if_pos hm]
      rw [hexDigits_one_iff]
      exact ⟨fun h => .inr ⟨.inr (.inl hm), h⟩, fun h => h.elim (fun h => absurd h.1 hd) And.right⟩
    · by_cases hp : c = '+'
      · have hd : ¬ isHexDigit c := fun h => (hdigit h).2.2 hp
        simp only [if_neg hm, if_pos hp]
        rw [hexDigits_one_iff]
        exact ⟨fun h => .inr ⟨.inr (.inr hp), h⟩, fun h => h.elim (fun h => absurd h.1 hd) And.right⟩
      · simp only [hm, hp, if_false]
        rw [hexDigits_two_iff]
        simp [hs]

theorem readable_iff (s : Str) : (∃ b, hexToChar (s.take 2) = .ok b) ↔ Readable (s.take 2) := by
  rcases s with _ | ⟨c, _ | ⟨d, s⟩⟩
  · exact iff_of_true ⟨0, rfl⟩ trivial
  · exact hexToChar_one_iff c
  · exact hexToChar_two_iff c d

theorem TwoDigits.readable {e : Str} (h : TwoDigits e) : Readable e := by
  obtain ⟨c, d, rfl, hc, hd⟩ := h
  obtain ⟨-, -, -, hx, hX, -⟩ := isHexDigit_cases hd
  exact .inl ⟨hc, fun h => h.2.elim hx hX⟩

/-! ## Which escapes are let through -/

/-- An escape that is well formed is one of the encoding. -/
theorem Decodes.escapes {s t : Str} (h : Decodes s t) : ∀ e ∈ escapes 0 s, TwoDigits e := by
  induction h with
  | nil => nofun
  | escape hh hl _ _ ih =>
    intro e he
    rcases List.mem_cons.1 he with rfl | he
    · exact ⟨_, _, rfl, hh, hl⟩
    · exact ih e he
  | plus _ ih => exact ih
  | @plain c s t h1 _ _ ih =>
    rw [GittyUp.escapes, if_neg h1]
    exact ih

/-- What is encoded is decoded to what it stands for. -/
theorem Decodes.decode {s t : Str} (h : Decodes s t) : uriDecode s = .ok t := by
  unfold uriDecode
  induction h with
  | nil => rfl
  | escape hh hl hc _ ih => exact uriDecodeLoop_escape hh hl hc ih
  | plus _ ih => exact uriDecodeLoop_plus ih
  | plain h1 h2 _ ih => exact uriDecodeLoop_plain h1 h2 ih

theorem exists_decodes (s : Str) (h : ∀ e ∈ escapes 0 s, TwoDigits e) : ∃ t, Decodes s t := by
  match s with
  | [] => exact ⟨[], .nil⟩
  | c :: s =>
    by_cases hc : c = '%'
    · subst hc
      obtain ⟨x, y, he, hx, hy⟩ := h (s.take 2) List.mem_cons_self
      obtain ⟨s', rfl⟩ : ∃ s', s = x :: y :: s' := by
        rcases s with _ | ⟨a, _ | ⟨b, s⟩⟩
        · cases he
        · cases he
        · cases he
          exact ⟨s, rfl⟩
      obtain ⟨t, ht⟩ := exists_decodes s' fun e he => h e (List.mem_cons_of_mem _ he)
      have hlt : 16 * hexVal x + hexVal y < 256 := by
        have := hexVal_lt hx
        have := hexVal_lt hy
        omega
      exact ⟨_, .escape (c := UInt8.ofNat (16 * hexVal x + hexVal y)) hx hy
        (by rw [UInt8.toNat_ofNat', Nat.mod_eq_of_lt hlt]) ht⟩
    · rw [escapes, if_neg hc] at h
      obtain ⟨t, ht⟩ := exists_decodes s h
      by_cases hp : c = '+'
      · subst hp
        exact ⟨_, .plus ht⟩
      · exact ⟨_, .plain hc hp ht⟩
termination_by s.length

/-- The decoder returns if it can read every escape. -/
theorem decode_ok_iff (skip : Nat) (s : Str) :
    (∃ t, uriDecodeLoop skip s = .ok t) ↔ ∀ e ∈ escapes skip s, Readable e := by
  induction s generalizing skip with
  | nil => exact iff_of_true ⟨[], by cases skip <;> rfl⟩ (by cases skip <;> simp [escapes])
  | cons c s ih =>
    cases skip with
    | succ skip => exact ih skip
    | zero =>
      have hbind : (∃ t, uriDecodeLoop 0 (c :: s) = .ok t) ↔
          (∃ d, decodeByte c s = .ok d) ∧ ∃ t, uriDecodeLoop (if c = '%' then 2 else 0) s = .ok t := by
        rw [uriDecodeLoop]
        cases decodeByte c s with
        | error e => simp [bind, Except.bind]
        | ok d => cases uriDecodeLoop (if c = '%' then 2 else 0) s <;> simp [bind, Except.bind, pure, Except.pure]
      rw [hbind, escapes, ih, decodeByte]
      by_cases hc : c = '%'
      · simp only [hc, if_true, List.forall_mem_cons]
        rw [readable_iff]
      · simp only [hc, if_false]
        split <;> simp

/-- The decoder returns on just the well-formed texts, with what they stand for, if and
only if this one is well formed or has an escape that cannot be read. -/
theorem decodes_iff (s : Str) : (∀ t, uriDecode s = .ok t ↔ Decodes s t) ↔
    (∀ e ∈ escapes 0 s, TwoDigits e) ∨ ∃ e ∈ escapes 0 s, ¬ Readable e := by
  constructor
  · intro h
    by_contra hn
    rw [not_or] at hn
    obtain ⟨hdigits, hread⟩ := hn
    push Not at hread
    -- all escapes are read, so the text is decoded
    obtain ⟨t, ht⟩ := (decode_ok_iff 0 s).2 hread
    exact hdigits ((h t).1 ht).escapes
  · rintro (hdigits | ⟨e, he, hread⟩) t
    · obtain ⟨u, hu⟩ := exists_decodes s hdigits
      refine ⟨fun ht => ?_, Decodes.decode⟩
      cases hu.decode.symm.trans ht
      exact hu
    · apply iff_of_false
      · intro ht
        exact hread ((decode_ok_iff 0 s).1 ⟨t, ht⟩ e he)
      · intro ht
        exact hread (ht.escapes e he).readable

/-- A percent sign at the end is read as a NUL. -/
theorem decodes_percent : uriDecode "100%" = .ok (str "100" ++ [0]) ∧
    ¬ ∀ t, uriDecode "100%" = .ok t ↔ Decodes "100%" t := by
  have hdecode : uriDecode "100%" = .ok (str "100" ++ [0]) := by decide +kernel
  refine ⟨hdecode, fun h => ?_⟩
  obtain ⟨x, y, he, -, -⟩ := ((h _).1 hdecode).escapes [] (by decide)
  cases he

end GittyUp
