import GittyUp.Meme.Table
import Mathlib.Data.List.Nodup
import Mathlib.Logic.Function.Basic
/-!
# Memes as a map

What the store is for: a map from ids to memes, whose ids and texts are valid by
their types. `Represents` connects it to the table, and each statement of the
handler is an operation on it.
-/
open Lib Lib.Sql GittyUp.Http GittyUp.SqlLib

namespace GittyUp.Meme

structure MemeId where
  text : Str
  valid : checkId text = true
deriving DecidableEq

structure Texts where
  memeTemplate : Str
  topCaption : Str
  bottomCaption : Str
  valid : Caption memeTemplate ∧ Caption topCaption ∧ Caption bottomCaption

structure Entry extends Texts where
  views : Nat

abbrev Memes := MemeId → Option Entry

namespace Memes

def create (M : Memes) (x : MemeId) (e : Texts) : Memes := Function.update M x (some ⟨e, 0⟩)

/-- An absent meme stays absent. -/
def modify (M : Memes) (x : MemeId) (f : Entry → Entry) : Memes := Function.update M x ((M x).map f)

def edit (M : Memes) (x : MemeId) (e : Texts) : Memes := M.modify x fun a => ⟨e, a.views⟩

def count (M : Memes) (x : MemeId) (n : Nat) : Memes := M.modify x fun a => { a with views := n }

def remove (M : Memes) (x : MemeId) : Memes := Function.update M x none

end Memes

/-! ## Through C strings -/

theorem caption_noNul {v : Str} (h : Caption v) : cStr v = v := by
  refine cStr_of_noNul fun c hc => ?_
  rintro rfl
  exact absurd (h.2 0 hc) (by decide)

theorem MemeId.cStr_text (x : MemeId) : cStr x.text = x.text := by
  refine cStr_of_noNul fun c hc => ?_
  rintro rfl
  rcases checkId_chars x.valid 0 hc with h | h
  · exact absurd h (by decide)
  · exact absurd h (by decide)

theorem cStr_dec (n : Nat) : cStr (dec n) = dec n := by
  refine cStr_of_noNul fun c hc => ?_
  rintro rfl
  exact absurd (dec_digits n 0 hc) (by decide)

theorem MemeId.text_injective : Function.Injective MemeId.text := by
  rintro ⟨s, hs⟩ ⟨t, ht⟩ rfl
  rfl

/-! ## The table of a map -/

def record (x : MemeId) (a : Entry) : Record := ⟨x.text, a.memeTemplate, a.topCaption, a.bottomCaption, dec a.views⟩

@[simp] theorem record_id (x : MemeId) (a : Entry) : (record x a).id = x.text := rfl

/-- The rows of a meme are read back as they were written. -/
theorem cStr_row (x : MemeId) (a : Entry) : (record x a).row.map cStr = (record x a).row := by
  obtain ⟨ht, hp, hb⟩ := a.valid
  simp [record, Record.row, x.cStr_text, caption_noNul ht, caption_noNul hp, caption_noNul hb, cStr_dec]

/-- The table holds the memes of the map, each once. -/
structure Represents (ms : List Record) (M : Memes) : Prop where
  nodup : (ms.map Record.id).Nodup
  mem_iff : ∀ m, m ∈ ms ↔ ∃ x a, M x = some a ∧ m = record x a

namespace Represents
variable {like : Str → Str → Bool} {ms ms' : List Record} {M : Memes} {r : Reply} {x : MemeId}

theorem nil : Represents [] (fun _ => none) := ⟨.nil, by simp⟩

theorem mem (h : Represents ms M) {a : Entry} (ha : M x = some a) : record x a ∈ ms := (h.mem_iff _).2 ⟨x, a, ha, rfl⟩

theorem absent (h : Represents ms M) (hx : M x = none) : ∀ m ∈ ms, m.id ≠ x.text := by
  intro m hm he
  obtain ⟨y, a, hy, rfl⟩ := (h.mem_iff m).1 hm
  cases MemeId.text_injective he
  cases hx.symm.trans hy

theorem insert (h : Represents ms M) (hx : M x = none) {e : Texts}
    (ha : Statement.Acts like ms r ms' (.insert x.text e.memeTemplate e.topCaption e.bottomCaption)) :
    r.done = true ∧ Represents ms' (M.create x e) := by
  obtain ⟨ht, hp, hb⟩ := e.valid
  have hrow : (⟨x.text, e.memeTemplate, e.topCaption, e.bottomCaption, str "0"⟩ : Record) = record x ⟨e, 0⟩ := by
    have : dec 0 = str "0" := by decide
    rw [record, this]
  obtain ⟨hdone, rfl⟩ := ha.2 (by rw [x.cStr_text]; exact h.absent hx)
  refine ⟨hdone, ?_, fun m => ?_⟩
  · rw [List.map_append, x.cStr_text]
    refine List.nodup_append.2 ⟨h.nodup, List.nodup_singleton _, ?_⟩
    rintro _ hm _ hm' rfl
    obtain ⟨m, hm, he⟩ := List.mem_map.1 hm
    exact h.absent hx m hm (he.trans (List.mem_singleton.1 hm'))
  · rw [x.cStr_text, caption_noNul ht, caption_noNul hp, caption_noNul hb, hrow, List.mem_append, List.mem_singleton,
      h.mem_iff]
    constructor
    · rintro (⟨y, a, hy, rfl⟩ | rfl)
      · refine ⟨y, a, ?_, rfl⟩
        have hne : y ≠ x := by
          rintro rfl
          cases hx.symm.trans hy
        exact (Function.update_of_ne hne _ _).trans hy
      · exact ⟨x, _, Function.update_self .., rfl⟩
    · rintro ⟨y, a, hy, rfl⟩
      by_cases hyx : y = x
      · subst hyx
        rw [Memes.create, Function.update_self] at hy
        cases hy
        exact .inr rfl
      · exact .inl ⟨y, a, (Function.update_of_ne hyx _ _).symm.trans hy, rfl⟩

/-- A statement that rewrites the row with an id modifies the meme. -/
theorem modify (h : Represents ms M) {f : Record → Record} {g : Entry → Entry}
    (hf : ∀ a, f (record x a) = record x (g a)) :
    Represents (ms.map fun m => if m.id = x.text then f m else m) (M.modify x g) := by
  have hrow : ∀ y a, (if (record y a).id = x.text then f (record y a) else record y a) =
      record y (if y = x then g a else a) := by
    intro y a
    rw [record_id]
    by_cases hy : y = x
    · subst hy
      rw [if_pos rfl, if_pos rfl, hf]
    · rw [if_neg fun he => hy (MemeId.text_injective he), if_neg hy]
  have hget : ∀ y, M.modify x g y = (M y).map fun a => if y = x then g a else a := by
    intro y
    unfold Memes.modify
    by_cases hy : y = x
    · subst hy
      rw [Function.update_self]
      simp
    · rw [Function.update_of_ne hy]
      simp [hy]
  refine ⟨?_, fun m => ?_⟩
  · have hids : ∀ m ∈ ms, Record.id (if m.id = x.text then f m else m) = m.id := by
      intro m hm
      obtain ⟨y, a, -, rfl⟩ := (h.mem_iff m).1 hm
      rw [hrow]
      rfl
    rw [List.map_map, List.map_congr_left (f := Record.id ∘ _) (g := Record.id) hids]
    exact h.nodup
  · rw [List.mem_map]
    constructor
    · rintro ⟨m, hm, rfl⟩
      obtain ⟨y, a, hy, rfl⟩ := (h.mem_iff m).1 hm
      exact ⟨y, _, by rw [hget, hy, Option.map_some], hrow y a⟩
    · rintro ⟨y, a, hy, rfl⟩
      rw [hget] at hy
      obtain ⟨a, ha, rfl⟩ := Option.map_eq_some_iff.1 hy
      exact ⟨_, h.mem ha, hrow y a⟩

theorem edit (h : Represents ms M) {e : Texts}
    (ha : Statement.Acts like ms r ms' (.edit x.text e.memeTemplate e.topCaption e.bottomCaption)) :
    r.done = true ∧ Represents ms' (M.edit x e) := by
  obtain ⟨ht, hp, hb⟩ := e.valid
  obtain ⟨hdone, rfl⟩ := ha
  refine ⟨hdone, ?_⟩
  rw [x.cStr_text, caption_noNul ht, caption_noNul hp, caption_noNul hb]
  exact h.modify fun _ => rfl

theorem count (h : Represents ms M) {n : Nat} (ha : Statement.Acts like ms r ms' (.count x.text (dec n))) :
    r.done = true ∧ Represents ms' (M.count x n) := by
  obtain ⟨hdone, rfl⟩ := ha
  refine ⟨hdone, ?_⟩
  rw [x.cStr_text, cStr_dec]
  exact h.modify fun _ => rfl

theorem remove (h : Represents ms M) (ha : Statement.Acts like ms r ms' (.remove x.text)) :
    r.done = true ∧ Represents ms' (M.remove x) := by
  obtain ⟨hdone, rfl⟩ := ha
  refine ⟨hdone, h.nodup.sublist (List.filter_sublist.map _), fun m => ?_⟩
  rw [x.cStr_text, List.mem_filter, h.mem_iff, decide_eq_true_eq]
  constructor
  · rintro ⟨⟨y, a, hy, rfl⟩, hne⟩
    have hne : y ≠ x := fun he => hne (congrArg MemeId.text he)
    exact ⟨y, a, (Function.update_of_ne hne _ _).trans hy, rfl⟩
  · rintro ⟨y, a, hy, rfl⟩
    have hne : y ≠ x := by
      rintro rfl
      rw [Memes.remove, Function.update_self] at hy
      cases hy
    exact ⟨⟨y, a, (Function.update_of_ne hne _ _).symm.trans hy, rfl⟩, fun he => hne (MemeId.text_injective he)⟩

/-- The query for an id returns its meme. -/
theorem find (h : Represents ms M) (hf : Statement.Finds (fun m => m.id = x.text) ms r ms') :
    r.rows = ((M x).map fun a => (record x a).row).toList := by
  obtain ⟨⟨found, hrows, hperm⟩, -⟩ := hf
  rw [hrows]
  cases hx : M x with
  | none =>
    rw [List.filter_eq_nil_iff.2 fun m hm => by simpa using h.absent hx m hm, List.perm_nil] at hperm
    rw [hperm]
    rfl
  | some a =>
    have hone : (ms.filter fun m => m.id = x.text).Perm [record x a] := by
      refine (List.perm_ext_iff_of_nodup ?_ (List.nodup_singleton _)).2 fun m => ?_
      · exact (List.Nodup.of_map _ h.nodup).filter _
      · rw [List.mem_filter, List.mem_singleton, decide_eq_true_eq]
        constructor
        · rintro ⟨hm, he⟩
          obtain ⟨y, b, hy, rfl⟩ := (h.mem_iff m).1 hm
          cases MemeId.text_injective he
          cases hx.symm.trans hy
          rfl
        · rintro rfl
          exact ⟨h.mem hx, rfl⟩
    rw [List.perm_singleton.1 (hperm.trans hone)]
    rfl

/-- The query for a text that is no id returns nothing. -/
theorem find_none (h : Represents ms M) {s : Str} (hs : checkId s = false)
    (hf : Statement.Finds (fun m => m.id = s) ms r ms') : r.rows = [] := by
  obtain ⟨⟨found, hrows, hperm⟩, -⟩ := hf
  have hnil : (ms.filter fun m => m.id = s) = [] := by
    refine List.filter_eq_nil_iff.2 fun m hm => ?_
    obtain ⟨y, a, -, rfl⟩ := (h.mem_iff m).1 hm
    rw [decide_eq_true_eq, record_id]
    rintro rfl
    cases hs.symm.trans y.valid
  rw [hnil, List.perm_nil] at hperm
  rw [hrows, hperm]
  rfl

end Represents

end GittyUp.Meme
