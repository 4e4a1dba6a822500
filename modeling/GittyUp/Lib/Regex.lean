import GittyUp.Lib.Bytes
/-!
# Backtracking regular expressions

Regular expressions over bytes in the order in which a backtracking matcher
tries them, without alternation and with repetition of single classes only.
`run` passes what is left of the text and the captures on to a continuation,
`Matches` says what an expression can match, and `runMany_stop` and
`runMany_greedy` say which of these a greedy repetition finds.
-/

namespace Lib

def lineFeed : Byte := '\n'
def carriageReturn : Byte := '\r'

/-- What `.` matches. -/
def notEol (c : Byte) : Bool := c ≠ '\n' && c ≠ '\r'

theorem notEol_ne {c : Byte} (h : notEol c) : c ≠ lineFeed ∧ c ≠ carriageReturn := by
  simpa [notEol, lineFeed, carriageReturn] using h

theorem notEol_lineFeed : notEol lineFeed = false := by decide
theorem notEol_return : notEol carriageReturn = false := by decide

/-- The captured texts, the latest first. -/
abbrev Captures := List (Nat × Str)

inductive Re
  | one (p : Byte → Bool)
  | many (p : Byte → Bool)
  | manyLazy (p : Byte → Bool)
  | seq (r r' : Re)
  | group (i : Nat) (r : Re)
  | textStart
  | textEnd

namespace Re

instance : Append Re := ⟨seq⟩

def plus (p : Byte → Bool) : Re := one p ++ many p

def plusLazy (p : Byte → Bool) : Re := one p ++ manyLazy p

def lit : Byte → Str → Re
  | c, [] => one (· == c)
  | c, d :: s => one (· == c) ++ lit d s

/-- `p` exactly `n + 1` times. -/
def times (p : Byte → Bool) : Nat → Re
  | 0 => one p
  | n + 1 => one p ++ times p n

/-! ## Matching -/

section Run
variable {α : Type}

/-- Greedy: the longest repetition first. -/
def runMany (p : Byte → Bool) (k : Str → Option α) : Str → Option α
  | [] => k []
  | c :: s => if p c then (runMany p k s).or (k (c :: s)) else k (c :: s)

/-- Lazy: the shortest repetition first. -/
def runManyLazy (p : Byte → Bool) (k : Str → Option α) : Str → Option α
  | [] => k []
  | c :: s => (k (c :: s)).or (if p c then runManyLazy p k s else none)

/-- The first way to match that the continuation `k` accepts, in a text of `n` bytes of which `s` is left. -/
def run (n : Nat) : Re → Str → Captures → (Str → Captures → Option α) → Option α
  | one p, s, caps, k =>
    match s with
    | [] => none
    | c :: s => if p c then k s caps else none
  | many p, s, caps, k => runMany p (fun s => k s caps) s
  | manyLazy p, s, caps, k => runManyLazy p (fun s => k s caps) s
  | seq r r', s, caps, k => r.run n s caps fun s caps => r'.run n s caps k
  | group i r, s, caps, k => r.run n s caps fun s' caps => k s' ((i, s.take (s.length - s'.length)) :: caps)
  | textStart, s, caps, k => if s.length = n then k s caps else none
  | textEnd, s, caps, k => if s = [] then k s caps else none

end Run

/-- A match: what is left of the text behind it, and the captures. -/
def matchAt (r : Re) (n : Nat) (s : Str) : Option (Str × Captures) := r.run n s [] fun s caps => some (s, caps)

/-- The leftmost match in what is left of a text of `n` bytes. -/
def searchFrom (r : Re) (n : Nat) : Str → Option (Str × Captures)
  | [] => r.matchAt n []
  | c :: s => (r.matchAt n (c :: s)).or (searchFrom r n s)

def search (r : Re) (s : Str) : Option Captures := (r.searchFrom s.length s).map Prod.snd

/-- All matches, each behind the one before. -/
def findAllFrom (r : Re) (n : Nat) : Nat → Str → List Captures
  | 0, _ => []
  | fuel + 1, s =>
    match r.searchFrom n s with
    | none => []
    | some (s, caps) => caps :: findAllFrom r n fuel s

/-- All matches of an expression that never matches the empty text. -/
def findAll (r : Re) (s : Str) : List Captures := r.findAllFrom s.length (s.length + 1) s

/-- The text of a group, empty if it was not captured. -/
def capture (caps : Captures) (i : Nat) : Str := (caps.lookup i).getD []

/-- A match that starts here is the leftmost. -/
theorem searchFrom_here {r : Re} {n : Nat} {s : Str} {x : Str × Captures} (h : r.matchAt n s = some x) :
    r.searchFrom n s = some x := by
  cases s with
  | nil => exact h
  | cons c s => rw [searchFrom, h, Option.some_or]

/-- The iteration depends on the search only. -/
theorem findAllFrom_congr {r : Re} (n fuel : Nat) {s t : Str} (h : r.searchFrom n s = r.searchFrom n t) :
    r.findAllFrom n fuel s = r.findAllFrom n fuel t := by
  cases fuel with
  | zero => rfl
  | succ fuel => rw [findAllFrom, findAllFrom, h]

/-! ## What can match -/

/-- `r` matches the text between `s` and what is left of it, `s'`. -/
def Matches (n : Nat) : Re → Str → Captures → Str → Captures → Prop
  | one p, s, caps, s', caps' => ∃ c, p c ∧ s = c :: s' ∧ caps' = caps
  | many p, s, caps, s', caps' => ∃ cs, (∀ c ∈ cs, p c) ∧ s = cs ++ s' ∧ caps' = caps
  | manyLazy p, s, caps, s', caps' => ∃ cs, (∀ c ∈ cs, p c) ∧ s = cs ++ s' ∧ caps' = caps
  | seq r r', s, caps, s', caps' => ∃ t tcaps, r.Matches n s caps t tcaps ∧ r'.Matches n t tcaps s' caps'
  | group i r, s, caps, s', caps' =>
    ∃ rcaps, r.Matches n s caps s' rcaps ∧ caps' = (i, s.take (s.length - s'.length)) :: rcaps
  | textStart, s, caps, s', caps' => s.length = n ∧ s' = s ∧ caps' = caps
  | textEnd, s, caps, s', caps' => s = [] ∧ s' = s ∧ caps' = caps

theorem matches_plus {n : Nat} {p : Byte → Bool} {s s' : Str} {caps caps' : Captures} :
    (plus p).Matches n s caps s' caps' ↔ ∃ cs, cs ≠ [] ∧ (∀ c ∈ cs, p c) ∧ s = cs ++ s' ∧ caps' = caps := by
  constructor
  · rintro ⟨t, _, ⟨c, hc, rfl, rfl⟩, cs, hcs, rfl, rfl⟩
    exact ⟨c :: cs, by simp, by simpa [hc] using hcs, rfl, rfl⟩
  · rintro ⟨cs, hne, hcs, rfl, rfl⟩
    obtain ⟨c, cs, rfl⟩ := List.exists_cons_of_ne_nil hne
    exact ⟨cs ++ s', _, ⟨c, hcs c (by simp), rfl, rfl⟩, cs, fun c hc => hcs c (by simp [hc]), rfl, rfl⟩

theorem matches_lit {n : Nat} {c : Byte} {l s s' : Str} {caps caps' : Captures} :
    (lit c l).Matches n s caps s' caps' ↔ s = c :: (l ++ s') ∧ caps' = caps := by
  induction l generalizing c s with
  | nil =>
    constructor
    · rintro ⟨d, hd, rfl, rfl⟩
      exact ⟨by rw [beq_iff_eq.1 hd]; rfl, rfl⟩
    · rintro ⟨rfl, rfl⟩
      exact ⟨c, by simp, rfl, rfl⟩
  | cons d l ih =>
    constructor
    · rintro ⟨t, _, ⟨e, he, rfl, rfl⟩, h⟩
      obtain ⟨rfl, rfl⟩ := ih.1 h
      exact ⟨by rw [beq_iff_eq.1 he]; rfl, rfl⟩
    · rintro ⟨rfl, rfl⟩
      exact ⟨_, _, ⟨c, by simp, rfl, rfl⟩, ih.2 ⟨rfl, rfl⟩⟩

theorem matches_times {n : Nat} {p : Byte → Bool} {m : Nat} {s s' : Str} {caps caps' : Captures} :
    (times p m).Matches n s caps s' caps' ↔
      ∃ cs, cs.length = m + 1 ∧ (∀ c ∈ cs, p c) ∧ s = cs ++ s' ∧ caps' = caps := by
  induction m generalizing s with
  | zero =>
    constructor
    · rintro ⟨c, hc, rfl, rfl⟩
      exact ⟨[c], rfl, by simpa using hc, rfl, rfl⟩
    · rintro ⟨cs, hl, hcs, rfl, rfl⟩
      obtain ⟨c, rfl⟩ := List.length_eq_one_iff.1 hl
      exact ⟨c, hcs c (by simp), rfl, rfl⟩
  | succ m ih =>
    constructor
    · rintro ⟨t, _, ⟨c, hc, rfl, rfl⟩, h⟩
      obtain ⟨cs, hl, hcs, rfl, rfl⟩ := ih.1 h
      exact ⟨c :: cs, by simp [hl], by simpa [hc] using hcs, rfl, rfl⟩
    · rintro ⟨cs, hl, hcs, rfl, rfl⟩
      obtain ⟨c, cs, rfl⟩ := List.exists_cons_of_length_eq_add_one hl
      exact ⟨_, _, ⟨c, hcs c (by simp), rfl, rfl⟩,
        ih.2 ⟨cs, by simpa using hl, fun c hc => hcs c (by simp [hc]), rfl, rfl⟩⟩

section Spec
variable {α : Type} {n : Nat}

theorem runMany_sound {p : Byte → Bool} {k : Str → Option α} {s : Str} {a : α} (h : runMany p k s = some a) :
    ∃ cs t, (∀ c ∈ cs, p c) ∧ s = cs ++ t ∧ k t = some a := by
  induction s with
  | nil => exact ⟨[], [], by simp, rfl, h⟩
  | cons c s ih =>
    unfold runMany at h
    split at h
    · rename_i hp
      rcases Option.or_eq_some_iff.1 h with h | ⟨-, h⟩
      · obtain ⟨cs, t, hcs, rfl, hk⟩ := ih h
        exact ⟨c :: cs, t, by simpa [hp] using hcs, rfl, hk⟩
      · exact ⟨[], c :: s, by simp, rfl, h⟩
    · exact ⟨[], c :: s, by simp, rfl, h⟩

theorem runMany_complete {p : Byte → Bool} {k : Str → Option α} {cs t : Str} (hcs : ∀ c ∈ cs, p c)
    (hk : (k t).isSome) : (runMany p k (cs ++ t)).isSome := by
  induction cs with
  | nil =>
    cases t with
    | nil => exact hk
    | cons c t =>
      rw [List.nil_append, runMany]
      split <;> simp [hk]
  | cons c cs ih =>
    rw [List.cons_append, runMany, if_pos (hcs c (by simp))]
    simp [ih fun c hc => hcs c (by simp [hc])]

theorem runManyLazy_sound {p : Byte → Bool} {k : Str → Option α} {s : Str} {a : α}
    (h : runManyLazy p k s = some a) : ∃ cs t, (∀ c ∈ cs, p c) ∧ s = cs ++ t ∧ k t = some a := by
  induction s with
  | nil => exact ⟨[], [], by simp, rfl, h⟩
  | cons c s ih =>
    unfold runManyLazy at h
    rcases Option.or_eq_some_iff.1 h with h | ⟨-, h⟩
    · exact ⟨[], c :: s, by simp, rfl, h⟩
    · split at h
      · rename_i hp
        obtain ⟨cs, t, hcs, rfl, hk⟩ := ih h
        exact ⟨c :: cs, t, by simpa [hp] using hcs, rfl, hk⟩
      · cases h

theorem runManyLazy_complete {p : Byte → Bool} {k : Str → Option α} {cs t : Str} (hcs : ∀ c ∈ cs, p c)
    (hk : (k t).isSome) : (runManyLazy p k (cs ++ t)).isSome := by
  induction cs with
  | nil =>
    cases t with
    | nil => exact hk
    | cons c t => rw [List.nil_append, runManyLazy, Option.isSome_or, hk, Bool.true_or]
  | cons c cs ih =>
    rw [List.cons_append, runManyLazy, Option.isSome_or, if_pos (hcs c (by simp)),
      ih fun c hc => hcs c (by simp [hc]), Bool.or_true]

/-- What the matcher finds is a match. -/
theorem run_sound {r : Re} : ∀ {s : Str} {caps : Captures} {k : Str → Captures → Option α} {a : α},
    r.run n s caps k = some a → ∃ s' caps', r.Matches n s caps s' caps' ∧ k s' caps' = some a := by
  induction r with
  | one p =>
    intro s caps k a h
    cases s with
    | nil => cases h
    | cons c s =>
      simp only [run] at h
      split at h
      · rename_i hp
        exact ⟨s, caps, ⟨c, hp, rfl, rfl⟩, h⟩
      · cases h
  | many p =>
    intro s caps k a h
    obtain ⟨cs, t, hcs, rfl, hk⟩ := runMany_sound h
    exact ⟨t, caps, ⟨cs, hcs, rfl, rfl⟩, hk⟩
  | manyLazy p =>
    intro s caps k a h
    obtain ⟨cs, t, hcs, rfl, hk⟩ := runManyLazy_sound h
    exact ⟨t, caps, ⟨cs, hcs, rfl, rfl⟩, hk⟩
  | seq r r' ih ih' =>
    intro s caps k a h
    obtain ⟨t, tcaps, hr, h⟩ := ih h
    obtain ⟨s', caps', hr', h⟩ := ih' h
    exact ⟨s', caps', ⟨t, tcaps, hr, hr'⟩, h⟩
  | group i r ih =>
    intro s caps k a h
    obtain ⟨s', rcaps, hr, h⟩ := ih h
    exact ⟨s', _, ⟨rcaps, hr, rfl⟩, h⟩
  | textStart | textEnd =>
    intro s caps k a h
    unfold run at h
    split at h
    · rename_i hs
      exact ⟨s, caps, ⟨hs, rfl, rfl⟩, h⟩
    · cases h

/-- If there is a match that the continuation accepts, the matcher finds one. -/
theorem run_complete {r : Re} : ∀ {s s' : Str} {caps caps' : Captures} {k : Str → Captures → Option α},
    r.Matches n s caps s' caps' → (k s' caps').isSome → (r.run n s caps k).isSome := by
  induction r with
  | one p =>
    rintro s s' caps caps' k ⟨c, hp, rfl, rfl⟩ hk
    simpa [run, hp] using hk
  | many p =>
    rintro s s' caps caps' k ⟨cs, hcs, rfl, rfl⟩ hk
    exact runMany_complete hcs hk
  | manyLazy p =>
    rintro s s' caps caps' k ⟨cs, hcs, rfl, rfl⟩ hk
    exact runManyLazy_complete hcs hk
  | seq r r' ih ih' =>
    rintro s s' caps caps' k ⟨t, tcaps, hr, hr'⟩ hk
    exact ih hr (ih' hr' hk)
  | group i r ih =>
    rintro s s' caps caps' k ⟨rcaps, hr, rfl⟩ hk
    exact ih hr hk
  | textStart | textEnd =>
    rintro s s' caps caps' k ⟨hs, rfl, rfl⟩ hk
    unfold run
    rw [if_pos hs]
    exact hk

/-- What a search finds matches somewhere in the text. -/
theorem search_sound {r : Re} {s : Str} {m : Captures} (h : r.search s = some m) :
    ∃ a b s', s = a ++ b ∧ r.Matches s.length b [] s' m := by
  obtain ⟨x, hx, rfl⟩ := Option.map_eq_some_iff.1 h
  clear h
  generalize s.length = n at hx ⊢
  induction s with
  | nil =>
    obtain ⟨s', caps, hm, ⟨rfl⟩⟩ := run_sound hx
    exact ⟨[], [], s', rfl, hm⟩
  | cons c s ih =>
    rcases Option.or_eq_some_iff.1 hx with hx | ⟨-, hx⟩
    · obtain ⟨s', caps, hm, ⟨rfl⟩⟩ := run_sound hx
      exact ⟨[], c :: s, s', rfl, hm⟩
    · obtain ⟨a, b, s', rfl, hm⟩ := ih hx
      exact ⟨c :: a, b, s', rfl, hm⟩

/-- A search succeeds if and only if something in the text matches. -/
theorem search_isSome_iff (r : Re) (s : Str) :
    (r.search s).isSome ↔ ∃ a b, s = a ++ b ∧ ∃ s' caps, r.Matches s.length b [] s' caps := by
  have key : ∀ (m : Nat) (t : Str), (r.searchFrom m t).isSome ↔
      ∃ a b, t = a ++ b ∧ ∃ s' caps, r.Matches m b [] s' caps := by
    intro m t
    have here : ∀ b, (r.matchAt m b).isSome ↔ ∃ s' caps, r.Matches m b [] s' caps := by
      intro b
      constructor
      · intro h
        obtain ⟨x, hx⟩ := Option.isSome_iff_exists.1 h
        obtain ⟨s', caps, hm, -⟩ := run_sound hx
        exact ⟨s', caps, hm⟩
      · rintro ⟨s', caps, hm⟩
        exact run_complete hm rfl
    induction t with
    | nil =>
      rw [searchFrom, here]
      exact ⟨fun h => ⟨[], [], rfl, h⟩, fun ⟨a, b, e, h⟩ => by simp_all⟩
    | cons c t ih =>
      simp only [searchFrom, Option.isSome_or, Bool.or_eq_true, here, ih]
      constructor
      · rintro (h | ⟨a, b, rfl, h⟩)
        · exact ⟨[], c :: t, rfl, h⟩
        · exact ⟨c :: a, b, rfl, h⟩
      · rintro ⟨a, b, e, h⟩
        cases a with
        | nil => exact .inl (by rw [e]; exact h)
        | cons d a => exact .inr ⟨a, b, by simpa using (List.cons.inj e).2, h⟩
  rw [search, Option.isSome_map, key]

/-- The expression does not ask for the end of the text. -/
def NoEnd : Re → Prop
  | seq r r' => r.NoEnd ∧ r'.NoEnd
  | group _ r => r.NoEnd
  | textEnd => False
  | _ => True

/-- A match that does not ask for the end stays one when more text follows. -/
theorem Matches.extend {r : Re} (hr : r.NoEnd) {s s' : Str} {caps caps' : Captures} (t : Str)
    (h : r.Matches n s caps s' caps') : r.Matches (n + t.length) (s ++ t) caps (s' ++ t) caps' := by
  induction r generalizing s s' caps caps' with
  | one p =>
    obtain ⟨c, hp, rfl, rfl⟩ := h
    exact ⟨c, hp, rfl, rfl⟩
  | many p | manyLazy p =>
    obtain ⟨cs, hcs, rfl, rfl⟩ := h
    exact ⟨cs, hcs, List.append_assoc .., rfl⟩
  | seq r r' ih ih' =>
    obtain ⟨u, ucaps, h, h'⟩ := h
    exact ⟨u ++ t, ucaps, ih hr.1 h, ih' hr.2 h'⟩
  | group i r ih =>
    obtain ⟨rcaps, h, rfl⟩ := h
    refine ⟨rcaps, ih hr h, ?_⟩
    have : (s ++ t).length - (s' ++ t).length = s.length - s'.length := by simp only [List.length_append]; omega
    rw [this, List.take_append_of_le_length (by omega)]
  | textStart =>
    obtain ⟨rfl, rfl, rfl⟩ := h
    exact ⟨by simp, rfl, rfl⟩
  | textEnd => cases hr

theorem search_extend {r : Re} (hr : r.NoEnd) {s : Str} (h : (r.search s).isSome) (t : Str) :
    (r.search (s ++ t)).isSome := by
  obtain ⟨a, b, rfl, s', caps, hm⟩ := (search_isSome_iff r s).1 h
  refine (search_isSome_iff r _).2 ⟨a, b ++ t, List.append_assoc .., s' ++ t, caps, ?_⟩
  rw [List.length_append]
  exact hm.extend hr t

/-! ## What a greedy repetition takes -/

/-- All of the run, if the rest of the expression cannot begin inside it. -/
theorem runMany_stop {p : Byte → Bool} {k : Str → Option α} (hk : ∀ c s, p c → k (c :: s) = none) (s : Str) :
    runMany p k s = k (s.dropWhile p) := by
  induction s with
  | nil => rfl
  | cons c s ih =>
    unfold runMany
    split
    · rename_i hp
      rw [List.dropWhile_cons_of_pos hp, ih, hk c s hp, Option.or_none]
    · rename_i hp
      rw [List.dropWhile_cons_of_neg hp]

/-- All of the run, if the rest of the expression matches behind it. -/
theorem runMany_greedy {p : Byte → Bool} {k : Str → Option α} {s : Str} (hk : (k (s.dropWhile p)).isSome) :
    runMany p k s = k (s.dropWhile p) := by
  induction s with
  | nil => rfl
  | cons c s ih =>
    unfold runMany
    split
    · rename_i hp
      rw [List.dropWhile_cons_of_pos hp] at hk ⊢
      rw [ih hk, Option.or_of_isSome hk]
    · rename_i hp
      rw [List.dropWhile_cons_of_neg hp]

/-- All but the last byte of the text, if the rest of the expression matches that byte
and not the empty text. -/
theorem runMany_last {p : Byte → Bool} {k : Str → Option α} {w : Str} {c : Byte} (hw : ∀ d ∈ w, p d) (hc : p c)
    (hend : k [] = none) (hk : (k [c]).isSome) : runMany p k (w ++ [c]) = k [c] := by
  induction w with
  | nil => rw [List.nil_append, runMany, if_pos hc, runMany, hend, Option.none_or]
  | cons d w ih =>
    rw [List.cons_append, runMany, if_pos (hw d List.mem_cons_self), ih fun d hd => hw d (List.mem_cons_of_mem _ hd),
      Option.or_of_isSome hk]

/-! ## What a lazy repetition takes -/

/-- As much as it has to, if the rest of the expression cannot begin before. -/
theorem runManyLazy_skip {p : Byte → Bool} {k : Str → Option α} {w s : Str} (hw : ∀ c ∈ w, p c)
    (hk : ∀ c ∈ w, ∀ t, k (c :: t) = none) (hs : (k s).isSome) : runManyLazy p k (w ++ s) = k s := by
  induction w with
  | nil =>
    cases s with
    | nil => rfl
    | cons c s => rw [List.nil_append, runManyLazy, Option.or_of_isSome hs]
  | cons c w ih =>
    rw [List.cons_append, runManyLazy, hk c List.mem_cons_self, Option.none_or, if_pos (hw c List.mem_cons_self),
      ih (fun c hc => hw c (List.mem_cons_of_mem _ hc)) fun c hc => hk c (List.mem_cons_of_mem _ hc)]

/-! ## How a run goes on -/

theorem run_append (r r' : Re) (s : Str) (caps : Captures) (k : Str → Captures → Option α) :
    (r ++ r').run n s caps k = r.run n s caps fun s caps => r'.run n s caps k := rfl

theorem run_lit (c : Byte) (l s : Str) (caps : Captures) (k : Str → Captures → Option α) :
    (lit c l).run n s caps k = if c :: l <+: s then k (s.drop (l.length + 1)) caps else none := by
  induction l generalizing c s with
  | nil =>
    cases s with
    | nil => simp [lit, run]
    | cons d s =>
      by_cases h : d = c
      · simp [lit, run, h]
      · simp [lit, run, h, Ne.symm h]
  | cons d l ih =>
    rw [lit, run_append]
    cases s with
    | nil => simp [run]
    | cons e s =>
      simp only [run, ih]
      by_cases h : e = c
      · simp [h]
      · simp [h, Ne.symm h]

theorem run_plus (p : Byte → Bool) (s : Str) (caps : Captures) {k : Str → Captures → Option α}
    (hk : ∀ c s caps, p c → k (c :: s) caps = none) :
    (plus p).run n s caps k = if s.takeWhile p = [] then none else k (s.dropWhile p) caps := by
  cases s with
  | nil => rfl
  | cons c s =>
    unfold plus
    rw [run_append]
    by_cases hc : p c
    · simp only [run, if_pos hc, List.takeWhile_cons_of_pos hc, List.dropWhile_cons_of_pos hc]
      rw [runMany_stop fun c s => hk c s caps, if_neg (List.cons_ne_nil _ _)]
    · simp [run, hc]

end Spec

end Re

end Lib
