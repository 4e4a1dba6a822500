import GittyUp.Meme.Failure
import GittyUp.Meme.Wire
import Mathlib.Data.Set.List
/-!
# What the memes show

The store without its counters: a map from ids to texts. `Shows` connects it to
the table whatever the counters are, so that neither the number of views nor the
order of their updates matters. `Serves` is all that is asked of the engine,
whether its calls may fail or not.
-/
open Lib Lib.Sql GittyUp.Http GittyUp.SqlLib

namespace GittyUp.Meme

/-- What the memes show. -/
abbrev Contents := MemeId → Option Texts

def IsInt (n : ℤ) : Prop := -2 ^ 31 ≤ n ∧ n < 2 ^ 31

/-- The row of a meme, with any counter. -/
def counted (x : MemeId) (e : Texts) (n : ℤ) : Record := ⟨x.text, e.memeTemplate, e.topCaption, e.bottomCaption, decInt n⟩

/-- The table holds memes with these contents, each once, and each with an `int` as its counter. -/
structure Shows (ms : List Record) (C : Contents) : Prop where
  nodup : (ms.map Record.id).Nodup
  rows : ∀ m ∈ ms, ∃ x e n, C x = some e ∧ IsInt n ∧ m = counted x e n
  mem : ∀ {x e}, C x = some e → ∃ n, counted x e n ∈ ms

@[simp] theorem counted_id (x : MemeId) (e : Texts) (n : ℤ) : (counted x e n).id = x.text := rfl

theorem counted_inj {x y : MemeId} {e f : Texts} {n k : ℤ} (h : counted x e n = counted y f k) : x = y ∧ e = f := by
  obtain ⟨hid, ht, hp, hb, -⟩ := Record.mk.injEq .. ▸ h
  refine ⟨MemeId.text_injective hid, ?_⟩
  cases e
  cases f
  cases ht
  cases hp
  cases hb
  rfl

theorem isInt_succInt (n : ℤ) : IsInt (succInt n) := by
  unfold IsInt succInt
  constructor
  · exact Int.le_bmod (by decide)
  · exact Int.bmod_lt (by decide)

theorem cStr_decInt (n : ℤ) : cStr (decInt n) = decInt n := by
  cases n with
  | ofNat n => exact cStr_dec n
  | negSucc n =>
    refine cStr_of_noNul fun c hc => ?_
    rintro rfl
    rcases List.mem_cons.1 hc with hc | hc
    · exact absurd hc (by decide)
    · exact absurd (dec_digits _ 0 hc) (by decide)

theorem cStr_counted (x : MemeId) (e : Texts) (n : ℤ) : (counted x e n).row.map cStr = (counted x e n).row := by
  obtain ⟨ht, hp, hb⟩ := e.valid
  simp [counted, Record.row, x.cStr_text, caption_noNul ht, caption_noNul hp, caption_noNul hb, cStr_decInt]

/-! ## Changes -/

namespace Shows
variable {like : Str → Str → Bool} {ms ms' : List Record} {C : Contents} {x : MemeId} {e : Texts} {r : Reply}

theorem nil : Shows [] fun _ => none := ⟨.nil, nofun, nofun⟩

/-- A table shows nothing else. -/
theorem unique {C' : Contents} (h : Shows ms C) (h' : Shows ms C') : C = C' := by
  have hsome : ∀ {D D' : Contents}, Shows ms D → Shows ms D' → ∀ x e, D x = some e → D' x = some e := by
    intro D D' hD hD' x e hx
    obtain ⟨n, hn⟩ := hD.mem hx
    obtain ⟨y, f, k, hy, -, he⟩ := hD'.rows _ hn
    obtain ⟨rfl, rfl⟩ := counted_inj he
    exact hy
  funext x
  refine Option.ext fun e => ⟨?_, ?_⟩
  · exact hsome h h' x e
  · exact hsome h' h x e

theorem absent (h : Shows ms C) (hx : C x = none) : ∀ m ∈ ms, m.id ≠ x.text := by
  intro m hm he
  obtain ⟨y, e, n, hy, -, rfl⟩ := h.rows m hm
  cases MemeId.text_injective he
  cases hx.symm.trans hy

/-- One more row, of a meme that was not there. -/
theorem snoc (h : Shows ms C) (hx : C x = none) {n : ℤ} (hn : IsInt n) :
    Shows (ms ++ [counted x e n]) (Function.update C x (some e)) := by
  refine ⟨?_, fun m hm => ?_, fun {y f} hy => ?_⟩
  · rw [List.map_append]
    refine List.nodup_append.2 ⟨h.nodup, List.nodup_singleton _, ?_⟩
    rintro _ hm _ hm' rfl
    obtain ⟨m, hm, he⟩ := List.mem_map.1 hm
    exact h.absent hx m hm (he.trans (List.mem_singleton.1 hm'))
  · rcases List.mem_append.1 hm with hm | hm
    · obtain ⟨y, f, k, hy, hk, rfl⟩ := h.rows m hm
      have hne : y ≠ x := by
        rintro rfl
        cases hx.symm.trans hy
      exact ⟨y, f, k, (Function.update_of_ne hne _ _).trans hy, hk, rfl⟩
    · exact ⟨x, e, n, Function.update_self .., hn, List.mem_singleton.1 hm⟩
  · by_cases hyx : y = x
    · subst hyx
      rw [Function.update_self] at hy
      cases hy
      exact ⟨n, by simp⟩
    · rw [Function.update_of_ne hyx] at hy
      obtain ⟨k, hk⟩ := h.mem hy
      exact ⟨k, List.mem_append_left _ hk⟩

theorem insert (h : Shows ms C) (hx : C x = none)
    (ha : Statement.Acts like ms r ms' (.insert x.text e.memeTemplate e.topCaption e.bottomCaption)) :
    r.done = true ∧ Shows ms' (Function.update C x (some e)) := by
  obtain ⟨ht, hp, hb⟩ := e.valid
  have hrow : (⟨x.text, e.memeTemplate, e.topCaption, e.bottomCaption, str "0"⟩ : Record) = counted x e 0 := by
    have h0 : decInt 0 = str "0" := by decide
    rw [counted, h0]
  obtain ⟨hdone, rfl⟩ := ha.2 (by rw [x.cStr_text]; exact h.absent hx)
  rw [x.cStr_text, caption_noNul ht, caption_noNul hp, caption_noNul hb, hrow]
  exact ⟨hdone, h.snoc hx (by unfold IsInt; decide)⟩

/-- A statement that rewrites the row with an id. -/
theorem modify (h : Shows ms C) {f : Record → Record} {g : Texts → Texts}
    (hf : ∀ e n, IsInt n → ∃ n', IsInt n' ∧ f (counted x e n) = counted x (g e) n') :
    Shows (ms.map fun m => if m.id = x.text then f m else m) (Function.update C x ((C x).map g)) := by
  have hrow : ∀ y e n, IsInt n → ∃ n', IsInt n' ∧
      (if (counted y e n).id = x.text then f (counted y e n) else counted y e n) =
        counted y (if y = x then g e else e) n' := by
    intro y e n hn
    rw [counted_id]
    by_cases hy : y = x
    · subst hy
      rw [if_pos rfl, if_pos rfl]
      exact hf e n hn
    · rw [if_neg fun he => hy (MemeId.text_injective he), if_neg hy]
      exact ⟨n, hn, rfl⟩
  have hget : ∀ y, Function.update C x ((C x).map g) y = (C y).map fun e => if y = x then g e else e := by
    intro y
    by_cases hy : y = x
    · subst hy
      rw [Function.update_self]
      simp
    · rw [Function.update_of_ne hy]
      simp [hy]
  refine ⟨?_, fun m hm => ?_, fun {y e} hy => ?_⟩
  · have hids : ∀ m ∈ ms, Record.id (if m.id = x.text then f m else m) = m.id := by
      intro m hm
      obtain ⟨y, e, n, -, hn, rfl⟩ := h.rows m hm
      obtain ⟨n', -, he⟩ := hrow y e n hn
      rw [he]
      rfl
    rw [List.map_map, List.map_congr_left (f := Record.id ∘ _) (g := Record.id) hids]
    exact h.nodup
  · obtain ⟨m', hm', rfl⟩ := List.mem_map.1 hm
    obtain ⟨y, e, n, hy, hn, rfl⟩ := h.rows m' hm'
    obtain ⟨n', hn', he⟩ := hrow y e n hn
    exact ⟨y, _, n', by rw [hget, hy, Option.map_some], hn', he⟩
  · rw [hget] at hy
    obtain ⟨e, he, rfl⟩ := Option.map_eq_some_iff.1 hy
    obtain ⟨n, hn⟩ := h.mem he
    obtain ⟨y', e', n', -, hn', heq⟩ := h.rows _ hn
    obtain ⟨rfl, rfl⟩ := counted_inj heq
    obtain ⟨k, -, hk⟩ := hrow y e n' hn'
    exact ⟨k, List.mem_map.2 ⟨_, hn, by rw [heq, hk]⟩⟩

theorem edit (h : Shows ms C)
    (ha : Statement.Acts like ms r ms' (.edit x.text e.memeTemplate e.topCaption e.bottomCaption)) :
    r.done = true ∧ Shows ms' (Function.update C x ((C x).map fun _ => e)) := by
  obtain ⟨ht, hp, hb⟩ := e.valid
  obtain ⟨hdone, rfl⟩ := ha
  refine ⟨hdone, ?_⟩
  rw [x.cStr_text, caption_noNul ht, caption_noNul hp, caption_noNul hb]
  exact h.modify fun _ n hn => ⟨n, hn, rfl⟩

/-- The counters show nowhere. -/
theorem count (h : Shows ms C) {n : ℤ} (hn : IsInt n) (ha : Statement.Acts like ms r ms' (.count x.text (decInt n))) :
    Shows ms' C := by
  obtain ⟨-, rfl⟩ := ha
  rw [x.cStr_text, cStr_decInt]
  have hmodify := h.modify (x := x) (f := fun m => { m with timesViewed := decInt n }) (g := id)
    fun _ _ _ => ⟨n, hn, rfl⟩
  rwa [Option.map_id, id, Function.update_eq_self] at hmodify

theorem remove (h : Shows ms C) (ha : Statement.Acts like ms r ms' (.remove x.text)) :
    r.done = true ∧ Shows ms' (Function.update C x none) := by
  obtain ⟨hdone, rfl⟩ := ha
  rw [x.cStr_text]
  refine ⟨hdone, h.nodup.sublist (List.filter_sublist.map _), fun m hm => ?_, fun {y e} hy => ?_⟩
  · obtain ⟨hm, hne⟩ := List.mem_filter.1 hm
    obtain ⟨y, e, n, hy, hn, rfl⟩ := h.rows m hm
    rw [decide_eq_true_eq] at hne
    have hyx : y ≠ x := fun he => hne (congrArg MemeId.text he)
    exact ⟨y, e, n, (Function.update_of_ne hyx _ _).trans hy, hn, rfl⟩
  · have hyx : y ≠ x := by
      rintro rfl
      rw [Function.update_self] at hy
      cases hy
    rw [Function.update_of_ne hyx] at hy
    obtain ⟨n, hn⟩ := h.mem hy
    exact ⟨n, List.mem_filter.2 ⟨hn, decide_eq_true fun he => hyx (MemeId.text_injective he)⟩⟩

end Shows

/-! ## Queries -/

/-- The body lists these memes, each once, those with the highest counters first. -/
def Listed (S : Set (MemeId × Texts)) (body : Str) : Prop :=
  ∃ listed : List (MemeId × Texts × ℤ), decodeList body = some (listed.map fun m => (counted m.1 m.2.1 m.2.2).wire) ∧
    (listed.map Prod.fst).Nodup ∧ listed.Pairwise (fun m m' => m'.2.2 ≤ m.2.2) ∧
      ∀ x e, (∃ n, (x, e, n) ∈ listed) ↔ (x, e) ∈ S

section Queries
variable {ms found : List Record} {C : Contents} {x : MemeId} {keep : Record → Bool}

/-- Whatever a query returns is rows of the memes. -/
theorem Shows.rows_found (h : Shows ms C) (hf : found.Subperm (ms.filter keep)) :
    ∀ m ∈ found, ∃ x e n, C x = some e ∧ IsInt n ∧ m = counted x e n :=
  fun m hm => h.rows m (List.mem_filter.1 (hf.subset hm)).1

theorem Shows.nodup_found (h : Shows ms C) (hf : found.Subperm (ms.filter keep)) : (found.map Record.id).Nodup := by
  obtain ⟨l, hl, hsub⟩ := hf
  exact (hl.map Record.id).nodup_iff.1 (h.nodup.sublist ((hsub.trans List.filter_sublist).map _))

/-- The query for an id returns nothing or its meme. -/
theorem Shows.find (h : Shows ms C) (hf : found.Subperm (ms.filter fun m => m.id = x.text)) :
    found = [] ∨ ∃ e n, C x = some e ∧ IsInt n ∧ found = [counted x e n] := by
  have hids : ∀ m ∈ found, m.id = x.text := fun m hm => of_decide_eq_true (List.mem_filter.1 (hf.subset hm)).2
  have hrows := h.rows_found hf
  have hnodup := h.nodup_found hf
  match found with
  | [] => exact .inl rfl
  | [m] =>
    obtain ⟨y, e, n, hy, hn, rfl⟩ := hrows m List.mem_cons_self
    obtain rfl : y = x := MemeId.text_injective (hids _ List.mem_cons_self)
    exact .inr ⟨e, n, hy, hn, rfl⟩
  | m :: m' :: _ =>
    have hm := hids m (by simp)
    have hm' := hids m' (by simp)
    simp [hm, hm'] at hnodup

theorem stoi_counted (x : MemeId) (e : Texts) {n : ℤ} (hn : IsInt n) : stoi (entry (counted x e n).row 4) = .ok n :=
  stoi_decInt hn

theorem wire_counted (x : MemeId) (e : Texts) (n : ℤ) : ∀ s ∈ (counted x e n).wire, ∀ c ∈ s, isField c = true := by
  obtain ⟨ht, hp, hb⟩ := e.valid
  have hdec : ∀ c ∈ decInt n, isField c = true := by
    cases n with
    | ofNat n => exact fun c hc => isDigit_isField c (dec_digits n c hc)
    | negSucc n =>
      intro c hc
      rcases List.mem_cons.1 hc with rfl | hc
      · decide
      · exact isDigit_isField c (dec_digits _ c hc)
  intro s hs c hc
  simp only [Record.wire, counted, List.mem_cons, List.not_mem_nil, or_false] at hs
  rcases hs with rfl | rfl | rfl | rfl | rfl
  · exact isHexDigit_isField c (checkId_chars x.valid c hc)
  · exact hdec c hc
  · exact isCaption_isField c (ht.2 c hc)
  · exact isCaption_isField c (hp.2 c hc)
  · exact isCaption_isField c (hb.2 c hc)

/-- The counter by which the rows are sorted. -/
def counterOf (row : Row) : ℤ :=
  match stoi (entry row 4) with
  | .ok n => n
  | .error _ => 0

theorem counterOf_counted (x : MemeId) (e : Texts) {n : ℤ} (hn : IsInt n) : counterOf (counted x e n).row = n := by
  rw [counterOf, stoi_counted x e hn]

/-- Some rows of the table are listed. -/
theorem answerList_listed (h : Shows ms C) (keep' : Texts → Bool) (hk : ∀ x e n, keep (counted x e n) = keep' e)
    (hf : found.Subperm (ms.filter keep)) : ∃ S body, answerList (found.map Record.row) = .ret (listAnswer body) ∧
      Listed S body ∧ S ⊆ { p | C p.1 = some p.2 ∧ keep' p.2 = true } ∧
        (found.Perm (ms.filter keep) → S = { p | C p.1 = some p.2 ∧ keep' p.2 = true }) := by
  have hrows := h.rows_found hf
  have hnodup := h.nodup_found hf
  let row (e : MemeId × Texts × ℤ) : Record := counted e.1 e.2.1 e.2.2
  obtain ⟨es, rfl, hes⟩ : ∃ es : List (MemeId × Texts × ℤ), found = es.map row ∧
      ∀ e ∈ es, C e.1 = some e.2.1 ∧ IsInt e.2.2 := by
    have hrange : found ∈ Set.range (List.map fun e : { e : MemeId × Texts × ℤ // C e.1 = some e.2.1 ∧ IsInt e.2.2 } =>
        row e.1) := by
      rw [Set.range_list_map]
      intro m hm
      obtain ⟨x, e, n, hx, hn, rfl⟩ := hrows m hm
      exact ⟨⟨(x, e, n), hx, hn⟩, rfl⟩
    obtain ⟨es, rfl⟩ := hrange
    refine ⟨es.map Subtype.val, by rw [List.map_map]; rfl, fun e he => ?_⟩
    obtain ⟨e, -, rfl⟩ := List.mem_map.1 he
    exact e.2
  have hkey : ∀ e ∈ es, counterOf (row e).row = e.2.2 := fun e he => counterOf_counted _ _ (hes e he).2
  have hsort : stableSort compareMemes (es.map fun e => (row e).row) = .ok _ :=
    stableSort_ok counterOf (by
      intro _ hr _ hr'
      obtain ⟨e, he, rfl⟩ := List.mem_map.1 hr
      obtain ⟨e', he', rfl⟩ := List.mem_map.1 hr'
      rw [compareMemes, stoi_counted _ _ (hes e he).2, stoi_counted _ _ (hes e' he').2, hkey e he, hkey e' he']
      rfl)
  have hmap := List.map_insertionSort (r := fun e e' : MemeId × Texts × ℤ => e.2.2 ≤ e'.2.2)
    (s := fun r r' => counterOf r ≤ counterOf r') (fun e => (row e).row) es
    fun e he e' he' => by rw [hkey e he, hkey e' he']
  rw [← hmap] at hsort
  generalize hl : es.insertionSort (fun e e' : MemeId × Texts × ℤ => e.2.2 ≤ e'.2.2) = sorted at hsort hmap
  have hperm : sorted.Perm es := hl ▸ List.perm_insertionSort _ _
  have hsub : { p : MemeId × Texts | ∃ n, (p.1, p.2, n) ∈ es } ⊆ { p | C p.1 = some p.2 ∧ keep' p.2 = true } := by
    rintro ⟨x, e⟩ ⟨n, hn⟩
    have hkeep := (List.mem_filter.1 (hf.subset (List.mem_map_of_mem hn))).2
    rw [hk] at hkeep
    exact ⟨(hes _ hn).1, hkeep⟩
  refine ⟨{ p | ∃ n, (p.1, p.2, n) ∈ es }, listOutput ((sorted.map row).map Record.row), ?_,
    ⟨sorted.reverse, ?_, ?_, ?_, ?_⟩, hsub, fun hall => hsub.antisymm ?_⟩
  · unfold answerList
    rw [List.map_map, List.map_map]
    show (do let result ← Prog.ofExcept (stableSort compareMemes (es.map fun e => (row e).row)); _) = _
    rw [hsort]
    rfl
  · rw [decodeList_listOutput, ← List.map_reverse, List.map_map]
    · rfl
    · intro m hm
      obtain ⟨e, -, rfl⟩ := List.mem_map.1 hm
      exact wire_counted _ _ _
  · refine List.Nodup.of_map MemeId.text ?_
    rw [List.map_map] at hnodup ⊢
    exact ((sorted.reverse_perm.trans hperm).map _).nodup_iff.2 hnodup
  · rw [List.pairwise_reverse, ← hl]
    exact List.pairwise_insertionSort _ _
  · intro x e
    simp only [List.mem_reverse, hperm.mem_iff, Set.mem_ofPred_eq]
  · rintro ⟨x, e⟩ ⟨hx, hkeep⟩
    obtain ⟨n, hn⟩ := h.mem hx
    have hmem := hall.symm.subset (List.mem_filter.2 ⟨hn, by rwa [hk]⟩)
    obtain ⟨⟨y, f, k⟩, he, heq⟩ := List.mem_map.1 hmem
    obtain ⟨rfl, rfl⟩ := counted_inj heq
    exact ⟨k, he⟩

/-- The row of a meme is counted and shown, whatever its counter is. -/
theorem viewRows_counted (x : MemeId) (e : Texts) {n : ℤ} (hn : IsInt n) :
    viewRows [(counted x e n).row] = do
      let _ ← change Statement.countSql [decInt (succInt n), x.text]
      return shown ⟨e, 0⟩ := by
  have hid : entry (counted x e n).row 0 = x.text := rfl
  have htemplate : entry (counted x e n).row 1 = e.memeTemplate := rfl
  have htop : entry (counted x e n).row 2 = e.topCaption := rfl
  have hbottom : entry (counted x e n).row 3 = e.bottomCaption := rfl
  obtain ⟨⟨ht, -⟩, ⟨hp, -⟩, hb, -⟩ := e.valid
  unfold viewRows updateRecord Statement.countSql shown
  simp only [hid, htemplate, htop, hbottom, stoi_counted x e hn, ht, hp, hb, or_self, if_false, Prog.ofExcept,
    Prog.ret_bind, List.map_cons, List.map_nil, List.cons_append, List.nil_append]

end Queries

/-! ## Engines -/

/-- The memes in the table. If calls can fail, it may not have been created yet. -/
def Held (faults : Prop) (db : Db) (ms : List Record) : Prop := db = memeDb ms ∨ (faults ∧ db = [] ∧ ms = [])

theorem Held.unique {faults : Prop} {db : Db} {ms ms' : List Record} (h : Held faults db ms) (h' : Held faults db ms') :
    ms = ms' := by
  rcases h with rfl | ⟨-, rfl, rfl⟩
  · rcases h' with h' | ⟨-, h', -⟩
    · exact memeDb_injective h'
    · cases h'
  · rcases h' with h' | ⟨-, -, rfl⟩
    · cases h'
    · rfl

namespace Statement

/-- The memes that a query asks for. -/
def keeps (like : Str → Str → Bool) : Statement → Option (Record → Bool)
  | find id => some fun m => m.id = cStr id
  | all => some fun _ => true
  | search q => some (matching like q)
  | _ => none

/-- A statement acts, or fails without an effect: a query behind some of its rows. -/
def Outcome (faults : Prop) (like : Str → Str → Bool) (st : Statement) (ms : List Record) (r : Reply) (ms' : List Record) :
    Prop :=
  st.Acts like ms r ms' ∨ (faults ∧ r.done = false ∧ ms' = ms ∧ ∀ keep, st.keeps like = some keep →
    ∃ found : List Record, r.rows = found.map Record.row ∧ found.Subperm (ms.filter keep))

end Statement

/-- What is asked of the engine. -/
def Serves (faults : Prop) (like : Str → Str → Bool) (engine : Db → Call → Reply → Db → Prop) : Prop :=
  ∀ {db ms st r db'}, Held faults db ms → engine db (Statement.call st) r db' →
    ∃ ms', Held faults db' ms' ∧ Statement.Outcome faults like st ms r ms'

section Engines
variable {like : Str → Str → Bool} {engine : Db → Call → Reply → Db → Prop} {faults : Prop} {ms ms' : List Record}
  {r : Reply} {st : Statement} {keep : Record → Bool}

theorem Statement.Acts.finds (hk : st.keeps like = some keep) (ha : st.Acts like ms r ms') :
    Statement.Finds keep ms r ms' := by
  cases st with
  | find | all | search =>
    cases hk
    exact ha
  | opening | creating | insert | edit | count | remove | closing => cases hk

/-- What a query has returned is rows of its memes, and all of them if no call can fail. -/
theorem Statement.Outcome.finds (hk : st.keeps like = some keep) (h : st.Outcome faults like ms r ms') :
    ms' = ms ∧ ∃ found : List Record, r.rows = found.map Record.row ∧ found.Subperm (ms.filter keep) ∧
      (found.Perm (ms.filter keep) ∨ faults) := by
  rcases h with ha | ⟨hf, -, hms, hrows⟩
  · obtain ⟨⟨found, hrows, hperm⟩, -, hms⟩ := ha.finds hk
    exact ⟨hms, found, hrows, hperm.subperm, .inl hperm⟩
  · obtain ⟨found, hrows, hsub⟩ := hrows keep hk
    exact ⟨hms, found, hrows, hsub, .inr hf⟩

/-- Engines whose calls all succeed. -/
theorem serves_documented (hd : Documented like engine) : Serves False like engine := by
  rintro db ms st r db' (rfl | ⟨hf, -⟩) h
  · obtain ⟨ms', rfl, ha⟩ := Statement.acts hd st h
    exact ⟨ms', .inl rfl, .inl ha⟩
  · exact hf.elim

/-- Rows that are some of the table's are those of memes. -/
theorem rows_subperm {rows : List Row} {ms : List Record} (h : rows.Subperm (ms.map Record.row)) :
    ∃ found : List Record, rows = found.map Record.row ∧ found.Subperm ms := by
  obtain ⟨l, hl, hsub⟩ := h
  obtain ⟨ms', hms', rfl⟩ := List.sublist_map_iff.1 hsub
  obtain ⟨found, rfl, hperm⟩ := Statement.rows_perm hl.symm
  exact ⟨found, rfl, ms', hperm.symm, hms'⟩

theorem halted_rows (hi : Interruptible like engine) {db db' : Db} (hs : Held True db ms)
    (h : engine db st.call r db') (hr : r.done = false) (hk : st.keeps like = some keep) :
    ∃ found : List Record, r.rows = found.map Record.row ∧ found.Subperm (ms.filter keep) := by
  have hselect : ∀ {picked : Row → Bool}, (db.lookup tableName = none → r.rows = []) →
      (∀ t, db.lookup tableName = some t → t = memeTable ms → r.rows.Subperm (t.rows.filter picked)) →
        (∀ m : Record, picked m.row = keep m) →
          ∃ found : List Record, r.rows = found.map Record.row ∧ found.Subperm (ms.filter keep) := by
    intro picked hnone hsome hpicked
    rcases hs with rfl | ⟨-, rfl, rfl⟩
    · have hsub := hsome _ (Statement.lookup_memeDb ms) rfl
      have hfun : picked ∘ Record.row = keep := funext hpicked
      rw [memeTable, List.filter_map, hfun] at hsub
      exact rows_subperm hsub
    · exact ⟨[], hnone rfl, List.nil_subperm⟩
  cases st with
  | find id =>
    cases hk
    obtain ⟨hnone, hsome⟩ := hi.returned Statement.parse_findSql h hr
    exact hselect hnone (fun t ht he => hsome t [(0, cStr id)] ht (he ▸ rfl)) (Statement.picks_id (cStr id))
  | all =>
    cases hk
    obtain ⟨hnone, hsome⟩ := hi.returned Statement.parse_allSql h hr
    exact hselect hnone (fun t ht _ => hsome t [] ht rfl) fun _ => rfl
  | search q =>
    cases hk
    obtain ⟨hnone, hsome⟩ := hi.returned Statement.parse_searchSql h hr
    refine hselect hnone (fun t ht he => hsome t [(2, cStr q), (3, cStr q)] ht (he ▸ rfl)) fun m => ?_
    simp [picksLike, Record.row, Statement.matching]
  | opening | creating | insert | edit | count | remove | closing => cases hk

/-- Engines whose calls can fail. -/
theorem serves_interruptible (hi : Interruptible like engine) : Serves True like engine := by
  have ha := hi.toAttempts
  rintro db ms st r db' hs h
  have hstored : Stored db ms := hs.imp_right And.right
  cases hst : st.runs with
  | true =>
    cases hr : r.done with
    | true =>
      obtain ⟨ms', rfl, hacts⟩ := attempt_acts ha hst hstored h hr
      exact ⟨ms', .inl rfl, .inl hacts⟩
    | false =>
      cases attempt_unchanged ha hst h hr
      exact ⟨ms, hs, .inr ⟨trivial, hr, rfl, fun keep hk => halted_rows hi hs h hr hk⟩⟩
  | false =>
    cases st with
    | opening =>
      cases ha.connect h
      exact ⟨ms, hs, .inl rfl⟩
    | closing =>
      cases ha.finalize h
      exact ⟨ms, hs, .inl rfl⟩
    | creating =>
      have ht := ha.exec Statement.parse_createSql h
      cases hr : r.done with
      | false =>
        rw [ht.unchanged hr]
        exact ⟨ms, hs, .inl rfl⟩
      | true =>
        obtain ⟨-, hnew, hold⟩ := ht.effect hr
        rcases hs with rfl | ⟨-, rfl, rfl⟩
        · exact ⟨ms, .inl (hold (by rw [Statement.lookup_memeDb]; rfl)), .inl rfl⟩
        · exact ⟨[], .inl (hnew rfl), .inl rfl⟩
    | insert | edit | count | remove | find | all | search => cases hst

end Engines

end GittyUp.Meme
