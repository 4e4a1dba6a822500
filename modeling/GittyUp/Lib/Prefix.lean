import Mathlib.Data.List.Basic
import Mathlib.Data.List.Infix
import Mathlib.Data.List.Perm.Basic
/-!
# Bindings, longest prefixes and last matches

Association lists that keep the first binding of each key, or the last one, and
the scan of a set of lists for the longest one that is a prefix of a given list.
None of these depends on the order in which the keys are visited. A scan that
overwrites its output at each match ends at the last one, `IsLast`.
-/

namespace Lib

/-! ## The first binding of a key wins -/

section Bindings
variable {κ ν : Type} [BEq κ]

/-- Bind `k`, unless it is bound already. -/
def bindNew (m : List (κ × ν)) (k : κ) (v : ν) : List (κ × ν) :=
  match m.lookup k with
  | some _ => m
  | none => m ++ [(k, v)]

def bindAll (m l : List (κ × ν)) : List (κ × ν) := l.foldl (fun m e => bindNew m e.1 e.2) m

variable [LawfulBEq κ]

theorem lookup_bindNew (m : List (κ × ν)) (k k' : κ) (v : ν) :
    (bindNew m k v).lookup k' = (m.lookup k').or (if k' == k then some v else none) := by
  unfold bindNew
  cases h : m.lookup k with
  | none =>
    rw [List.lookup_append]
    congr 1
    simp only [List.lookup_cons, List.lookup_nil]
    cases k' == k <;> rfl
  | some w =>
    by_cases e : k' = k
    · subst e; simp [h]
    · simp [e]

theorem lookup_bindAll (l m : List (κ × ν)) (k : κ) : (bindAll m l).lookup k = (m.lookup k).or (l.lookup k) := by
  induction l generalizing m with
  | nil => simp [bindAll]
  | cons e l ih =>
    obtain ⟨key, v⟩ := e
    have := ih (bindNew m key v)
    simp only [bindAll, List.foldl_cons] at this ⊢
    rw [this, lookup_bindNew, Option.or_assoc]
    congr 1
    simp only [List.lookup_cons]
    cases k == key <;> rfl

theorem lookup_isSome_iff (m : List (κ × ν)) (k : κ) : (m.lookup k).isSome ↔ k ∈ m.map Prod.fst := by
  rw [List.lookup_isSome_iff]
  simp only [beq_iff_eq, List.mem_map]
  exact ⟨fun ⟨e, he, h⟩ => ⟨e, he, h.symm⟩, fun ⟨e, he, h⟩ => ⟨e, he, h.symm⟩⟩

theorem mem_of_lookup {m : List (κ × ν)} {k : κ} {v : ν} (h : m.lookup k = some v) : (k, v) ∈ m := by
  obtain ⟨l₁, l₂, rfl, -⟩ := List.lookup_eq_some_iff.1 h
  simp

theorem mem_keys_bindAll (l : List (κ × ν)) (k : κ) : k ∈ (bindAll [] l).map Prod.fst ↔ k ∈ l.map Prod.fst := by
  rw [← lookup_isSome_iff, ← lookup_isSome_iff, lookup_bindAll]
  simp

/-- The entries that are the first ones of their keys, in order. -/
def firsts : List (κ × ν) → List (κ × ν)
  | [] => []
  | e :: l => e :: (firsts l).filter fun e' => !(e'.1 == e.1)

theorem nodup_firsts (l : List (κ × ν)) : ((firsts l).map Prod.fst).Nodup := by
  induction l with
  | nil => exact .nil
  | cons e l ih =>
    refine List.nodup_cons.2 ⟨fun h => ?_, ih.sublist (List.filter_sublist.map _)⟩
    obtain ⟨e', he', heq⟩ := List.mem_map.1 h
    have hne := (List.mem_filter.1 he').2
    rw [heq, beq_self_eq_true] at hne
    cases hne

/-- What is bound after a list of bindings: first what was, then the first binding of each other key. -/
theorem bindAll_firsts (l m : List (κ × ν)) :
    bindAll m l = m ++ (firsts l).filter fun e => (m.lookup e.1).isNone := by
  induction l generalizing m with
  | nil => exact (List.append_nil m).symm
  | cons e l ih =>
    obtain ⟨k, v⟩ := e
    have hstep : bindAll m ((k, v) :: l) = bindAll (bindNew m k v) l := rfl
    rw [hstep, ih]
    cases hk : m.lookup k with
    | some w =>
      have hsame : bindNew m k v = m := by
        unfold bindNew
        rw [hk]
      rw [hsame, firsts, List.filter_cons_of_neg (by simp [hk]), List.filter_filter]
      congr 1
      refine List.filter_congr fun e he => ?_
      by_cases hek : e.1 = k
      · simp [hek, hk]
      · simp [hek]
    | none =>
      have hnew : bindNew m k v = m ++ [(k, v)] := by
        unfold bindNew
        rw [hk]
      rw [firsts, List.filter_cons_of_pos (by simp [hk]), List.filter_filter, hnew, List.append_assoc,
        List.singleton_append]
      congr 2
      refine List.filter_congr fun e he => ?_
      rw [List.lookup_append]
      cases m.lookup e.1 with
      | some _ => rfl
      | none =>
        show ((List.lookup e.1 [(k, v)]).isNone) = _
        rw [List.lookup_cons, List.lookup_nil]
        cases e.1 == k <;> rfl

theorem bindAll_nil (l : List (κ × ν)) : bindAll [] l = firsts l := by
  rw [bindAll_firsts, List.nil_append]
  exact List.filter_eq_self.2 fun _ _ => rfl

end Bindings

/-! ## The last binding of a key wins -/

section LastBindings
variable {κ ν : Type} [BEq κ]

/-- Bind `k` anew, in its place if it is bound already. -/
def bindLast (m : List (κ × ν)) (k : κ) (v : ν) : List (κ × ν) :=
  match m.lookup k with
  | some _ => m.map fun e => if e.1 == k then (k, v) else e
  | none => m ++ [(k, v)]

def rebindAll (m l : List (κ × ν)) : List (κ × ν) := l.foldl (fun m e => bindLast m e.1 e.2) m

theorem mem_bindLast {m : List (κ × ν)} {k : κ} {v : ν} {e : κ × ν} (h : e ∈ bindLast m k v) :
    e = (k, v) ∨ e ∈ m := by
  unfold bindLast at h
  split at h
  · obtain ⟨e', he', rfl⟩ := List.mem_map.1 h
    split_ifs
    · exact .inl rfl
    · exact .inr he'
  · rcases List.mem_append.1 h with h | h
    · exact .inr h
    · exact .inl (List.mem_singleton.1 h)

/-- What is bound was bound before or is one of the new bindings. -/
theorem mem_rebindAll {m l : List (κ × ν)} {e : κ × ν} (h : e ∈ rebindAll m l) : e ∈ l ∨ e ∈ m := by
  induction l generalizing m with
  | nil => exact .inr h
  | cons x l ih =>
    rcases ih h with h | h
    · exact .inl (List.mem_cons_of_mem _ h)
    · rcases mem_bindLast h with rfl | h
      · exact .inl List.mem_cons_self
      · exact .inr h

variable [LawfulBEq κ]

theorem lookup_replace (m : List (κ × ν)) (k k' : κ) (v : ν) :
    (m.map fun e => if e.1 == k then (k, v) else e).lookup k' =
      if k' == k then (m.lookup k).map fun _ => v else m.lookup k' := by
  induction m with
  | nil => simp
  | cons e m ih =>
    obtain ⟨l, w⟩ := e
    by_cases hl : l = k
    · subst hl
      by_cases hk : k' = l
      · simp [hk]
      · have hb : (k' == l) = false := beq_false_of_ne hk
        simp [List.lookup_cons, hb, ih]
    · have hb : (k == l) = false := beq_false_of_ne (Ne.symm hl)
      have hb' : (l == k) = false := beq_false_of_ne hl
      simp only [List.map_cons, hb', List.lookup_cons, hb, ih, Bool.false_eq_true, if_false]
      by_cases hk : k' = k
      · subst hk
        simp [hb]
      · cases k' == l <;> simp [hk]

theorem lookup_bindLast (m : List (κ × ν)) (k k' : κ) (v : ν) :
    (bindLast m k v).lookup k' = if k' == k then some v else m.lookup k' := by
  unfold bindLast
  cases h : m.lookup k with
  | some w => simp only [lookup_replace, h, Option.map_some]
  | none =>
    rw [List.lookup_append]
    by_cases hk : k' = k
    · subst hk
      simp [h]
    · have hb : (k' == k) = false := beq_false_of_ne hk
      simp [List.lookup_cons, hb]

theorem lookup_rebindAll (l m : List (κ × ν)) (k : κ) :
    (rebindAll m l).lookup k = (l.reverse.lookup k).or (m.lookup k) := by
  induction l generalizing m with
  | nil => rfl
  | cons e l ih =>
    obtain ⟨key, v⟩ := e
    have := ih (bindLast m key v)
    simp only [rebindAll, List.foldl_cons] at this ⊢
    rw [this, lookup_bindLast, List.reverse_cons, List.lookup_append, Option.or_assoc]
    congr 1
    by_cases hk : k = key
    · simp [hk]
    · have hb : (k == key) = false := beq_false_of_ne hk
      simp [List.lookup_cons, hb]

theorem keys_bindLast (m : List (κ × ν)) (k : κ) (v : ν) :
    (bindLast m k v).map Prod.fst = if (m.lookup k).isSome then m.map Prod.fst else m.map Prod.fst ++ [k] := by
  unfold bindLast
  cases h : m.lookup k with
  | some w =>
    simp only [Option.isSome_some, if_true, List.map_map]
    refine List.map_congr_left fun e _ => ?_
    by_cases he : e.1 = k
    · simp [he]
    · simp [he]
  | none => simp

theorem nodup_rebindAll {m : List (κ × ν)} (h : (m.map Prod.fst).Nodup) (l : List (κ × ν)) :
    ((rebindAll m l).map Prod.fst).Nodup := by
  induction l generalizing m with
  | nil => exact h
  | cons e l ih =>
    apply ih
    rw [keys_bindLast]
    split_ifs with hk
    · exact h
    · rw [lookup_isSome_iff] at hk
      refine List.nodup_append.2 ⟨h, List.pairwise_singleton .., fun x hx y hy hxy => hk ?_⟩
      rwa [← List.mem_singleton.1 hy, ← hxy]

/-- With each key bound once, a lookup gives the value of its key. -/
theorem lookup_of_mem {m : List (κ × ν)} (hn : (m.map Prod.fst).Nodup) {k : κ} {v : ν} (h : (k, v) ∈ m) :
    m.lookup k = some v := by
  obtain ⟨l₁, l₂, rfl⟩ := List.append_of_mem h
  refine List.lookup_eq_some_iff.2 ⟨l₁, l₂, rfl, fun e he => ?_⟩
  rw [List.map_append, List.map_cons] at hn
  refine bne_iff_ne.2 fun hk => (List.nodup_append.1 hn).2.2 e.1 (List.mem_map_of_mem he) k List.mem_cons_self hk.symm

/-- With each key bound once, a lookup does not depend on the order. -/
theorem lookup_perm {l l' : List (κ × ν)} (hp : l.Perm l') (hn : (l.map Prod.fst).Nodup) (k : κ) :
    l.lookup k = l'.lookup k := by
  induction hp with
  | nil => rfl
  | cons e _ ih =>
    obtain ⟨key, v⟩ := e
    have := ih (List.nodup_cons.1 hn).2
    simp only [List.lookup_cons, this]
  | swap e e' l =>
    obtain ⟨key, v⟩ := e
    obtain ⟨key', v'⟩ := e'
    have hne : key' ≠ key := fun h => (List.nodup_cons.1 hn).1 (by simp [h])
    by_cases he : k = key
    · simp [List.lookup_cons, he, beq_false_of_ne hne.symm]
    · simp [List.lookup_cons, beq_false_of_ne he]
  | trans h₁ _ ih₁ ih₂ => exact (ih₁ hn).trans (ih₂ ((h₁.map Prod.fst).nodup_iff.1 hn))

end LastBindings

/-! ## The longest prefix -/

section Prefixes
variable {α : Type}

/-- `l` is the longest member of `S` that is a prefix of `u`. -/
structure IsLongestPrefix (S : List (List α)) (u l : List α) : Prop where
  mem : l ∈ S
  isPre : l <+: u
  longest : ∀ l' ∈ S, l' <+: u → l'.length ≤ l.length

theorem IsLongestPrefix.unique {S : List (List α)} {u l l' : List α} (h : IsLongestPrefix S u l)
    (h' : IsLongestPrefix S u l') : l = l' := by
  have e : l.length = l'.length :=
    Nat.le_antisymm (h'.longest l h.mem h.isPre) (h.longest l' h'.mem h'.isPre)
  exact (List.prefix_of_prefix_length_le h.isPre h'.isPre e.le).eq_of_length e

theorem IsLongestPrefix.congr {S S' : List (List α)} (hS : ∀ l, l ∈ S ↔ l ∈ S') {u l : List α}
    (h : IsLongestPrefix S u l) : IsLongestPrefix S' u l :=
  ⟨(hS l).1 h.mem, h.isPre, fun l' hl' => h.longest l' ((hS l').2 hl')⟩

variable [DecidableEq α]

/-- Keep `c` if it is a longer prefix of `u` than the best one so far. -/
def longer (u best c : List α) : List α := if c <+: u ∧ best.length < c.length then c else best

/-- What the scan of `S` has found when it started with `best`. -/
theorem foldl_longer (u : List α) (S : List (List α)) : ∀ best : List α, best <+: u →
    let r := S.foldl (longer u) best
    r <+: u ∧ best.length ≤ r.length ∧ (r = best ∨ r ∈ S) ∧ ∀ l ∈ S, l <+: u → l.length ≤ r.length := by
  induction S with
  | nil => simp
  | cons c S ih =>
    intro best hb
    simp only [List.foldl_cons]
    by_cases hc : c <+: u ∧ best.length < c.length
    · obtain ⟨h1, h2, h3, h4⟩ := ih c hc.1
      rw [longer, if_pos hc]
      refine ⟨h1, by omega, ?_, ?_⟩
      · rcases h3 with h3 | h3
        · exact .inr (by rw [h3]; simp)
        · exact .inr (by simp [h3])
      · intro l hl hp
        rcases List.mem_cons.1 hl with rfl | hl
        · exact h2
        · exact h4 l hl hp
    · obtain ⟨h1, h2, h3, h4⟩ := ih best hb
      rw [longer, if_neg hc]
      refine ⟨h1, h2, h3.imp_right (by simp +contextual), ?_⟩
      intro l hl hp
      rcases List.mem_cons.1 hl with rfl | hl
      · have : ¬ best.length < l.length := fun h => hc ⟨hp, h⟩
        omega
      · exact h4 l hl hp

/-- The scan finds the longest prefix, or stays empty when there is none. -/
theorem scan_longest (u : List α) (S : List (List α)) :
    IsLongestPrefix S u (S.foldl (longer u) []) ∨ (S.foldl (longer u) [] = [] ∧ ∀ l ∈ S, ¬ l <+: u) := by
  obtain ⟨h1, -, h3, h4⟩ := foldl_longer u S [] List.nil_prefix
  rcases h3 with h3 | h3
  · by_cases hn : ∀ l ∈ S, ¬ l <+: u
    · exact .inr ⟨h3, hn⟩
    · push Not at hn
      obtain ⟨l, hl, hp⟩ := hn
      have hl0 : l = [] := List.eq_nil_of_length_eq_zero (by have := h4 l hl hp; rw [h3] at this; simpa using this)
      subst hl0
      exact .inl ⟨h3.symm ▸ hl, h1, h4⟩
  · exact .inl ⟨h3, h1, h4⟩

end Prefixes

/-! ## The last match -/

section Last
variable {α : Type} {p : α → Prop} {l : List α}

/-- The place of the last element with `p`, if there is one. -/
def IsLast (p : α → Prop) (l : List α) : Option Nat → Prop
  | some i => (∃ x, l[i]? = some x ∧ p x) ∧ ∀ j, i < j → ∀ x, l[j]? = some x → ¬ p x
  | none => ∀ x ∈ l, ¬ p x

theorem IsLast.skip {out : Option Nat} (h : IsLast p l out) {x : α} (hx : ¬ p x) : IsLast p (l ++ [x]) out := by
  cases out with
  | none =>
    intro y hy
    rcases List.mem_append.1 hy with hy | hy
    · exact h y hy
    · rwa [List.mem_singleton.1 hy]
  | some i =>
    obtain ⟨⟨y, hy, hpy⟩, hlater⟩ := h
    refine ⟨⟨y, ?_, hpy⟩, fun j hj z hz => ?_⟩
    · rwa [List.getElem?_append_left (List.getElem?_eq_some_iff.1 hy).1]
    · rcases Nat.lt_or_ge j l.length with hjl | hjl
      · exact hlater j hj z (by rwa [List.getElem?_append_left hjl] at hz)
      · rw [List.getElem?_append_right hjl] at hz
        rwa [List.mem_singleton.1 (List.mem_of_getElem? hz)]

theorem IsLast.found {x : α} (hx : p x) : IsLast p (l ++ [x]) (some l.length) := by
  refine ⟨⟨x, by simp, hx⟩, fun j hj y hy => ?_⟩
  have := (List.getElem?_eq_some_iff.1 hy).1
  simp at this
  omega

/-- An element with `p` is the last one if no later one has it. -/
theorem IsLast.eq_some_iff {out : Option Nat} (h : IsLast p l out) {i : Nat} {x : α} (hi : l[i]? = some x) (hx : p x) :
    out = some i ↔ ∀ j, i < j → ∀ y, l[j]? = some y → ¬ p y := by
  cases out with
  | none => exact absurd hx (h x (List.mem_of_getElem? hi))
  | some k =>
    obtain ⟨⟨y, hy, hpy⟩, hlater⟩ := h
    refine ⟨fun e => ?_, fun hi' => ?_⟩
    · cases e
      exact hlater
    · have hki : ¬ k < i := fun hki => hlater i hki x hi hx
      have hik : ¬ i < k := fun hik => hi' k hik y hy hpy
      rw [show k = i by omega]

theorem IsLast.unique {out out' : Option Nat} (h : IsLast p l out) (h' : IsLast p l out') : out = out' := by
  cases out with
  | none =>
    cases out' with
    | none => rfl
    | some i =>
      obtain ⟨⟨x, hx, hp⟩, -⟩ := h'
      exact absurd hp (h x (List.mem_of_getElem? hx))
  | some i =>
    obtain ⟨⟨x, hx, hp⟩, hlater⟩ := h
    exact ((h'.eq_some_iff hx hp).2 hlater).symm

end Last

end Lib
