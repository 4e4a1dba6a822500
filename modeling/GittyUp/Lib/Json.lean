import GittyUp.Lib.Bytes
/-!
# JSON arrays and objects of strings

Readers for JSON texts in ASCII that are arrays of strings, or objects with
strings as their values. They give up on escapes with hexadecimal digits; what
they read, any JSON parser reads alike.
-/
open Lib

namespace Lib.Json

def isWhite (c : Byte) : Bool := c = ' ' || c = '\t' || c = '\n' || c = '\r'

/-- The byte that a backslash and `c` stand for. -/
def escape (c : Byte) : Option Byte :=
  if c = '"' ∨ c = '\\' ∨ c = '/' then some c
  else if c = 'b' then some 8
  else if c = 't' then some 9
  else if c = 'n' then some 10
  else if c = 'f' then some 12
  else if c = 'r' then some 13
  else none

/-- A string behind its opening quote, and what follows it. The flag says that a backslash comes before. -/
def readString : Bool → Str → Option (Str × Str)
  | _, [] => none
  | true, c :: s => do
    let d ← escape c
    let (t, rest) ← readString false s
    return (d :: t, rest)
  | false, c :: s =>
    if c = '"' then some ([], s)
    else if c = '\\' then readString true s
    else if 32 ≤ c ∧ c < 128 then do
      let (t, rest) ← readString false s
      return (c :: t, rest)
    else none

/-- One or more strings up to the end of the array, and what follows it. -/
def readElements : Nat → Str → Option (List Str × Str)
  | 0, _ => none
  | fuel + 1, s =>
    match s.dropWhile isWhite with
    | [] => none
    | c :: s =>
      if c = '"' then do
        let (t, s) ← readString false s
        match s.dropWhile isWhite with
        | [] => none
        | d :: s =>
          if d = ']' then return ([t], s)
          else if d = ',' then do
            let (ts, rest) ← readElements fuel s
            return (t :: ts, rest)
          else none
      else none

def readEnd (ts : List Str) (s : Str) : Option (List Str) := if s.dropWhile isWhite = [] then some ts else none

/-- The strings of a text that is an array of strings. -/
def strings (s : Str) : Option (List Str) :=
  match s.dropWhile isWhite with
  | [] => none
  | c :: s =>
    if c = '[' then
      match s.dropWhile isWhite with
      | [] => none
      | d :: s =>
        if d = ']' then readEnd [] s
        else do
          let (ts, s) ← readElements (s.length + 1) (d :: s)
          readEnd ts s
    else none

/-! ## Texts without escapes -/

/-- A character that stands for itself in a string. -/
def isPlain (c : Byte) : Bool := 32 ≤ c && c < 128 && c ≠ '"' && c ≠ '\\'

def quoted (t : Str) : Str := str "\"" ++ t ++ str "\""

def array (ts : List Str) : Str := str "[" ++ (str ",").intercalate (ts.map quoted) ++ str "]"

theorem readString_plain {t : Str} (h : ∀ c ∈ t, isPlain c) (s : Str) :
    readString false (t ++ (str "\"" ++ s)) = some (t, s) := by
  induction t with
  | nil => rfl
  | cons c t ih =>
    have hc := h c List.mem_cons_self
    simp only [isPlain, Bool.and_eq_true, decide_eq_true_eq] at hc
    obtain ⟨⟨⟨h1, h2⟩, h3⟩, h4⟩ := hc
    rw [List.cons_append, readString, if_neg h3, if_neg h4, if_pos ⟨h1, h2⟩,
      ih fun c hc => h c (List.mem_cons_of_mem _ hc)]
    rfl

theorem quoted_append (t s : Str) : quoted t ++ s = (('"' : Char) : Byte) :: (t ++ (str "\"" ++ s)) := by
  simp [quoted, str]

theorem readElements_quoted {t : Str} (h : ∀ c ∈ t, isPlain c) (fuel : Nat) (d : Byte) (hd : isWhite d = false) (s : Str) :
    readElements (fuel + 1) (quoted t ++ (d :: s)) =
      if d = ']' then some ([t], s)
      else if d = ',' then (readElements fuel s).bind fun r => some (t :: r.1, r.2)
      else none := by
  rw [quoted_append, readElements, List.dropWhile_cons_of_neg (by decide)]
  simp only [if_true, readString_plain h, Option.bind_eq_bind, Option.bind_some]
  rw [List.dropWhile_cons_of_neg (by simp [hd])]
  rfl

theorem readElements_array {t : Str} {ts : List Str} (h : ∀ u ∈ t :: ts, ∀ c ∈ u, isPlain c) (rest : Str) {fuel : Nat}
    (hf : ts.length < fuel) :
    readElements fuel ((str ",").intercalate ((t :: ts).map quoted) ++ (str "]" ++ rest)) = some (t :: ts, rest) := by
  have ht := h t List.mem_cons_self
  induction ts generalizing t fuel with
  | nil =>
    obtain ⟨fuel, rfl⟩ := Nat.exists_eq_add_one_of_ne_zero (Nat.ne_of_gt hf)
    rw [List.map_singleton, List.intercalate_singleton]
    exact readElements_quoted ht fuel _ (by decide) rest
  | cons u ts ih =>
    obtain ⟨fuel, rfl⟩ := Nat.exists_eq_add_one_of_ne_zero (Nat.ne_zero_of_lt hf)
    have hts : ∀ v ∈ u :: ts, ∀ c ∈ v, isPlain c := fun v hv => h v (List.mem_cons_of_mem _ hv)
    have := ih hts (Nat.lt_of_succ_lt_succ hf) (hts u List.mem_cons_self)
    rw [List.map_cons, List.map_cons, List.intercalate_cons_cons, ← List.map_cons, List.append_assoc, List.append_assoc]
    rw [show str "," = [((',' : Char) : Byte)] from rfl, List.singleton_append,
      readElements_quoted ht fuel _ (by decide)]
    rw [show str "," = [((',' : Char) : Byte)] from rfl] at this
    rw [this]
    rfl

/-- Each element adds a quote at least, and the first one comes first. -/
theorem elements_text (t : Str) (ts : List Str) (rest : Str) :
    ∃ s, (str ",").intercalate ((t :: ts).map quoted) ++ rest = (('"' : Char) : Byte) :: s ∧ ts.length ≤ s.length := by
  induction ts generalizing t with
  | nil => exact ⟨_, by rw [List.map_singleton, List.intercalate_singleton, quoted_append], Nat.zero_le _⟩
  | cons u ts ih =>
    obtain ⟨s, hs, hl⟩ := ih u
    refine ⟨t ++ (str "\"" ++ (str "," ++ ((('"' : Char) : Byte) :: s))), ?_, ?_⟩
    · rw [List.map_cons, List.map_cons, List.intercalate_cons_cons, ← List.map_cons, List.append_assoc,
        List.append_assoc, hs, quoted_append]
    · simp only [List.length_append, List.length_cons]
      omega

/-- Reading back an array of plain strings. -/
theorem strings_array {ts : List Str} (h : ∀ t ∈ ts, ∀ c ∈ t, isPlain c) : strings (array ts) = some ts := by
  cases ts with
  | nil => rfl
  | cons t ts =>
    obtain ⟨s, hs, hl⟩ := elements_text t ts (str "]" ++ [])
    have hr := readElements_array h [] (Nat.lt_succ_of_le hl)
    rw [hs] at hr
    have htext : array (t :: ts) = (('[' : Char) : Byte) :: (('"' : Char) : Byte) :: s := by
      rw [← hs]
      simp [array, str]
    unfold strings
    rw [htext, List.dropWhile_cons_of_neg (by decide)]
    simp only [if_true]
    rw [List.dropWhile_cons_of_neg (by decide)]
    simp only [hr]
    rfl

/-! ## Objects -/

/-- A string, which may come behind white space, and what follows it. -/
def readQuoted (s : Str) : Option (Str × Str) :=
  match s.dropWhile isWhite with
  | [] => none
  | c :: s => if c = '"' then readString false s else none

/-- What follows a mark, which may come behind white space. -/
def readMark (mark : Byte) (s : Str) : Option Str :=
  match s.dropWhile isWhite with
  | [] => none
  | c :: s => if c = mark then some s else none

/-- One or more members up to the end of the object, and what follows it. -/
def readMembers : Nat → Str → Option (List (Str × Str) × Str)
  | 0, _ => none
  | fuel + 1, s => do
    let (name, s) ← readQuoted s
    let (value, s) ← readQuoted (← readMark ':' s)
    match readMark ',' s with
    | some s =>
      let (ms, rest) ← readMembers fuel s
      return ((name, value) :: ms, rest)
    | none => return ([(name, value)], ← readMark '\x7d' s)

/-- The members of a text that is an object with strings as its values. -/
def members (s : Str) : Option (List (Str × Str)) := do
  let s ← readMark '\x7b' s
  match readMark '\x7d' s with
  | some s => if s.dropWhile isWhite = [] then some [] else none
  | none =>
    let (ms, s) ← readMembers (s.length + 1) s
    if s.dropWhile isWhite = [] then some ms else none

def member (m : Str × Str) : Str := quoted m.1 ++ (str ": " ++ quoted m.2)

def object (ms : List (Str × Str)) : Str := str "\x7b" ++ (str ", ").intercalate (ms.map member) ++ str "\x7d"

theorem readQuoted_quoted {t : Str} (h : ∀ c ∈ t, isPlain c) (s : Str) : readQuoted (quoted t ++ s) = some (t, s) := by
  rw [quoted_append, readQuoted, List.dropWhile_cons_of_neg (by decide)]
  exact readString_plain h s

theorem readQuoted_white {c : Byte} (hc : isWhite c = true) (s : Str) : readQuoted (c :: s) = readQuoted s := by
  unfold readQuoted
  rw [List.dropWhile_cons_of_pos hc]

theorem readMark_cons {c : Byte} (hc : isWhite c = false) (mark : Byte) (s : Str) :
    readMark mark (c :: s) = if c = mark then some s else none := by
  unfold readMark
  rw [List.dropWhile_cons_of_neg (by simp [hc])]

/-- A member with a mark behind it. -/
theorem readMembers_member {m : Str × Str} (hn : ∀ c ∈ m.1, isPlain c) (hv : ∀ c ∈ m.2, isPlain c) (fuel : Nat) {d : Byte}
    (hd : isWhite d = false) (s : Str) : readMembers (fuel + 1) (member m ++ d :: s) =
      if d = ',' then (readMembers fuel s).bind fun r => some (m :: r.1, r.2)
      else if d = '\x7d' then some ([m], s) else none := by
  have hcolon : str ": " ++ quoted m.2 ++ d :: s = (':' : Byte) :: (' ' : Byte) :: (quoted m.2 ++ d :: s) := rfl
  rw [member, List.append_assoc, readMembers]
  simp only [readQuoted_quoted hn, Option.bind_eq_bind, Option.bind_some, hcolon]
  rw [readMark_cons (by decide), if_pos rfl]
  simp only [Option.bind_some]
  rw [readQuoted_white (by decide)]
  simp only [readQuoted_quoted hv, Option.bind_some, readMark_cons hd]
  by_cases hcomma : d = ','
  · simp only [hcomma, if_true]
    rfl
  · simp only [if_neg hcomma]
    by_cases hend : d = '\x7d'
    · simp only [if_pos hend]
      rfl
    · simp only [if_neg hend]
      rfl

theorem readMembers_white {c : Byte} (hc : isWhite c = true) (fuel : Nat) (s : Str) :
    readMembers fuel (c :: s) = readMembers fuel s := by
  cases fuel with
  | zero => rfl
  | succ fuel => rw [readMembers, readMembers, readQuoted_white hc]

theorem readMembers_object {m : Str × Str} {ms : List (Str × Str)}
    (h : ∀ p ∈ m :: ms, (∀ c ∈ p.1, isPlain c) ∧ ∀ c ∈ p.2, isPlain c) (rest : Str) {fuel : Nat} (hf : ms.length < fuel) :
    readMembers fuel ((str ", ").intercalate ((m :: ms).map member) ++ (str "\x7d" ++ rest)) = some (m :: ms, rest) := by
  obtain ⟨hn, hv⟩ := h m List.mem_cons_self
  induction ms generalizing m fuel with
  | nil =>
    obtain ⟨fuel, rfl⟩ := Nat.exists_eq_add_one_of_ne_zero (Nat.ne_of_gt hf)
    rw [List.map_singleton, List.intercalate_singleton]
    exact readMembers_member hn hv fuel (by decide) rest
  | cons p ms ih =>
    obtain ⟨fuel, rfl⟩ := Nat.exists_eq_add_one_of_ne_zero (Nat.ne_zero_of_lt hf)
    have hms : ∀ q ∈ p :: ms, (∀ c ∈ q.1, isPlain c) ∧ ∀ c ∈ q.2, isPlain c := fun q hq => h q (List.mem_cons_of_mem _ hq)
    obtain ⟨hpn, hpv⟩ := hms p List.mem_cons_self
    have hrest := ih hms (Nat.lt_of_succ_lt_succ hf) hpn hpv
    have hsep : ∀ t, str ", " ++ t = (',' : Byte) :: (' ' : Byte) :: t := fun _ => rfl
    rw [List.map_cons, List.map_cons, List.intercalate_cons_cons, ← List.map_cons, List.append_assoc, List.append_assoc,
      hsep, readMembers_member hn hv fuel (by decide), if_pos rfl, readMembers_white (by decide), hrest]
    rfl

/-- Each member adds a quote at least, and the first one comes first. -/
theorem members_text (m : Str × Str) (ms : List (Str × Str)) (rest : Str) :
    ∃ s, (str ", ").intercalate ((m :: ms).map member) ++ rest = ('"' : Byte) :: s ∧ ms.length ≤ s.length := by
  induction ms generalizing m with
  | nil => exact ⟨_, by rw [List.map_singleton, List.intercalate_singleton, member, List.append_assoc, quoted_append],
      Nat.zero_le _⟩
  | cons p ms ih =>
    obtain ⟨s, hs, hl⟩ := ih p
    refine ⟨m.1 ++ (str "\"" ++ (str ": " ++ quoted m.2 ++ (str ", " ++ (('"' : Byte) :: s)))), ?_, ?_⟩
    · rw [List.map_cons, List.map_cons, List.intercalate_cons_cons, ← List.map_cons, List.append_assoc,
        List.append_assoc, hs, member, List.append_assoc, quoted_append]
    · simp only [List.length_append, List.length_cons]
      omega

/-- Reading back an object with plain names and values. -/
theorem members_object {ms : List (Str × Str)} (h : ∀ m ∈ ms, (∀ c ∈ m.1, isPlain c) ∧ ∀ c ∈ m.2, isPlain c) :
    members (object ms) = some ms := by
  cases ms with
  | nil => rfl
  | cons m ms =>
    obtain ⟨s, hs, hl⟩ := members_text m ms (str "\x7d" ++ [])
    have hr := readMembers_object h [] (Nat.lt_succ_of_le (Nat.le_succ_of_le hl))
    rw [hs] at hr
    have htext : object (m :: ms) = ('\x7b' : Byte) :: ('"' : Byte) :: s := by
      rw [← hs]
      simp [object, str]
    unfold members
    rw [htext, readMark_cons (by decide), if_pos rfl]
    simp only [Option.bind_eq_bind, Option.bind_some]
    rw [readMark_cons (by decide), if_neg (by decide)]
    simp only [List.length_cons, hr, Option.bind_some]
    rfl

/-- An object is no array. -/
theorem strings_object (ms : List (Str × Str)) : strings (object ms) = none := by
  have hbrace : ∀ t, str "\x7b" ++ t = ('\x7b' : Byte) :: t := fun _ => rfl
  unfold strings object
  rw [List.append_assoc, hbrace, List.dropWhile_cons_of_neg (by decide)]
  simp only
  rw [if_neg (by decide)]

end Lib.Json
