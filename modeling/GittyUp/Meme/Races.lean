import GittyUp.Meme.Counter
/-!
# How many views can be lost

A race can lose all the views of a meme but one, and every number in between:
`possible_views` says what counters `n` answered views can leave, over all runs.
-/
open Lib Lib.Sql GittyUp.Http GittyUp.SqlLib

namespace GittyUp.Meme

/-- The requests, in runs with few views. -/
def memesFew (engine : Db → Call → Reply → Db → Prop) : System Db Call Reply StdException Response Input :=
  (memeSystem engine anyOrder).restrict FewViews

/-! ## The bounds -/

/-- A counter is at most the number of its updates, and at least one behind the first. -/
def between : Counting (fun tr op w w' => anyOrder tr op w w' ∧ FewViews w') where
  tracks n N := n ≤ N ∧ (N ≠ 0 → n ≠ 0)
  zero := ⟨le_rfl, id⟩
  le := And.left
  step hc hrow hsmall hle hstore hr htracks hal := by
    obtain ⟨hroom, hnext⟩ := atMost.step hc hrow hsmall hle hstore hr (fun b hb => (htracks b hb).1) hal
    exact ⟨hroom, fun b hb => ⟨hnext b hb, fun _ => Nat.succ_ne_zero _⟩⟩

variable {like : Str → Str → Bool} {engine : Db → Call → Reply → Db → Prop}
  {p : Pool Db Call Reply StdException Response Input} {x : MemeId}

theorem readViews_absent {ms : List Record} {M : Memes} (hr : Represents ms M) (hx : M x = none) :
    readViews (memeDb ms) x = none := by
  have hfind : (storedRows (memeDb ms)).find? (fun row => entry row 0 = x.text) = none := by
    rw [storedRows, Statement.lookup_memeDb]
    refine List.find?_eq_none.2 fun row hrow => ?_
    obtain ⟨m, hm, rfl⟩ := List.mem_map.1 hrow
    rw [decide_eq_true_eq]
    exact hr.absent hx m hm
  rw [readViews, hfind]
  rfl

/-- In any run, with requests of every kind. -/
theorem views_between (hd : Documented like engine) (h : Reachable (memesFew engine) (memeDb []) p)
    (hfinished : Finished p) {v : Nat} (hv : readViews p.world.store x = some (v : ℤ)) :
    min (p.threads.countP (answeredView x)) 1 ≤ v ∧ v ≤ p.threads.countP (answeredView x) := by
  obtain ⟨⟨ms, M, hinv⟩, hthreads⟩ := reachable_inv hd between h
  have hcount : viewCount x p.world.log = p.threads.countP (answeredView x) := by
    refine viewCount_threads (fun t ht => ?_) h.log_perm
    obtain ⟨resp, hp⟩ | ⟨e, hp⟩ := hfinished t ht
    · rw [((hthreads t ht).1 _ hp).counted x, answeredView, hp]
      simp only [isOk, viewOf_iff, Bool.and_eq_true]
    · rw [((hthreads t ht).2 _ hp).counted x, answeredView, hp]
      simp [isOk]
  cases hx : M x with
  | none =>
    rw [hinv.store, readViews_absent hinv.represents hx] at hv
    cases hv
  | some a =>
    rw [hinv.store, readViews_represents hinv.represents hx, stoi_dec (hinv.small hx)] at hv
    obtain ⟨hle, hne⟩ := hinv.tracks hx
    cases Int.ofNat.inj (Option.some.inj hv)
    rw [hcount] at hle hne
    exact ⟨by omega, hle⟩

/-! ## Runs that lose views -/

section Racing
variable {w : MemeWorld} {ts : List (Thread Call Reply StdException Response Input)} {e : Texts} {n v m : Nat}
  {i : Input}

/-- The table with one meme. -/
def oneMeme (x : MemeId) (e : Texts) (v : Nat) : Db := memeDb [record x ⟨e, v⟩]

theorem represents_oneMeme (x : MemeId) (e : Texts) (v : Nat) :
    Represents [record x ⟨e, v⟩] (Function.update (fun _ => none) x (some ⟨e, v⟩)) := by
  refine ⟨List.nodup_singleton _, fun r => ?_⟩
  rw [List.mem_singleton]
  constructor
  · rintro rfl
    exact ⟨_, _, Function.update_self .., rfl⟩
  · rintro ⟨y, a, hy, rfl⟩
    by_cases hyx : y = x
    · subst hyx
      rw [Function.update_self] at hy
      cases hy
      rfl
    · rw [Function.update_of_ne hyx] at hy
      cases hy

/-- What is left of a view that has read the counter `v`. -/
def writing (x : MemeId) (e : Texts) (v : Nat) : SqlProg Response := do
  let _ ← change Statement.countSql [dec (v + 1), x.text]
  return shown ⟨e, v⟩

/-- `m` counts so far, all for `x`. -/
def Tally (x : MemeId) (w : MemeWorld) (m : Nat) : Prop := ∀ y, viewCount y w.log = if y = x then m else 0

theorem Tally.few (h : Tally x w m) (hm : m < 2 ^ 31 - 1) : FewViews w := by
  intro y
  rw [h y]
  split
  · exact hm
  · omega

/-- The pool with these threads can be reached, with `v` in the counter and `m` counts so far. -/
def Racing (like : Str → Str → Bool) (x : MemeId) (e : Texts) (v m : Nat)
    (ts : List (Thread Call Reply StdException Response Input)) : Prop :=
  ∃ w, Reachable (memesFew (computes like)) (memeDb []) ⟨w, ts⟩ ∧ w.store = oneMeme x e v ∧ Tally x w m

variable {ts' : List (Thread Call Reply StdException Response Input)} {tr : Trace} {u : Nat}

/-- The next statement of a thread. -/
theorem race_call {ms : List Record} (st : Statement) (ht : ∀ r db', Tally x (w.after st.call r db') m)
    (hm : m < 2 ^ 31 - 1) (hw : w.store = memeDb ms) {k : Reply → SqlProg Response}
    (h : Reachable (memesFew (computes like)) (memeDb []) ⟨w, ts ++ ⟨i, tr, .call st.call k⟩ :: ts'⟩) :
    ∃ r ms' w', st.Acts like ms r ms' ∧ w'.store = memeDb ms' ∧ Tally x w' m ∧
      Reachable (memesFew (computes like)) (memeDb []) ⟨w', ts ++ ⟨i, tr ++ [(st.call, r)], k r⟩ :: ts'⟩ := by
  have hs : computes like w.store st.call _ _ := rfl
  have hacts := hs
  rw [hw] at hacts
  obtain ⟨ms', hms, ha⟩ := Statement.acts (documented_computes like) st hacts
  rw [← hw] at hms ha
  exact ⟨_, ms', _, ha, hms, ht _ _, .step h (.call hs ⟨trivial, (ht _ _).few hm⟩)⟩

/-- A statement that counts nothing. -/
theorem Tally.quiet (ht : Tally x w m) {st : Statement} (hview : ∀ y, isView y st.call = false) (r : Reply) (db' : Db) :
    Tally x (w.after st.call r db') m := by
  intro y
  rw [World.after_log, viewCount_quiet (c := (st.call, r)) hview, ht y]

theorem Tally.count (ht : Tally x w m) (v : Nat) (r : Reply) (db' : Db) :
    Tally x (w.after (Statement.count x.text (dec v)).call r db') (m + 1) := by
  intro y
  rw [World.after_log, viewCount_snoc, ht y, isView_call, Statement.counts, x.cStr_text]
  by_cases hy : y = x
  · subst hy
    simp
  · have hne : x.text ≠ y.text := fun he => hy (MemeId.text_injective he).symm
    simp [hy, hne]

/-- A view reads the counter. -/
theorem Racing.read (hi : isGetFor x i.1 = true) (hm : m < 2 ^ 31 - 1) (hv : v < 2 ^ 31 - 1)
    (h : Racing like x e v m (ts ++ ⟨i, tr, serve i.2.text i.1⟩ :: ts')) :
    ∃ tr', Racing like x e v m (ts ++ ⟨i, tr', writing x e v⟩ :: ts') := by
  obtain ⟨w, hr, hw, ht⟩ := h
  rw [serve_eq, viewOf_eq_some.1 ((viewOf_iff i.1 x).2 hi), Command.prog] at hr
  obtain ⟨_, _, w₁, rfl, hw, ht, hr⟩ := race_call .opening (ht.quiet fun _ => rfl) hm hw hr
  obtain ⟨_, _, w₂, rfl, hw, ht, hr⟩ := race_call .creating (ht.quiet fun _ => rfl) hm hw hr
  unfold getMemeById selectRecord at hr
  rw [collect_bind] at hr
  obtain ⟨r, _, w₃, ha, hw, ht, hr⟩ := race_call (.find x.text) (ht.quiet fun y => isView_call y _) hm hw hr
  rw [Statement.Acts, x.cStr_text] at ha
  have hrows := (represents_oneMeme x e v).find ha
  obtain ⟨-, hdone, rfl⟩ := ha
  have hsmall : (⟨e, v⟩ : Entry).views < 2 ^ 31 - 1 := hv
  rw [Function.update_self, Option.map_some, Option.toList_some] at hrows
  rw [if_pos hdone, hrows, List.map_singleton, cStr_row, viewRows_record x (by omega), decInt_succInt hsmall] at hr
  obtain ⟨_, _, w₄, rfl, hw, ht, hr⟩ := race_call .closing (ht.quiet fun _ => rfl) hm hw hr
  exact ⟨_, w₄, hr, hw, ht⟩

/-- A view that has read `v` writes its successor, whatever the counter is by then. -/
theorem Racing.write (hm : m + 1 < 2 ^ 31 - 1) (h : Racing like x e u m (ts ++ ⟨i, tr, writing x e v⟩ :: ts')) :
    ∃ tr', Racing like x e (v + 1) (m + 1) (ts ++ ⟨i, tr', .ret (shown ⟨e, v⟩)⟩ :: ts') := by
  obtain ⟨w, hr, hw, ht⟩ := h
  unfold writing at hr
  rw [change_bind] at hr
  obtain ⟨r, _, w₁, ⟨hdone, rfl⟩, hw, ht, hr⟩ :=
    race_call (.count x.text (dec (v + 1))) (ht.count (v + 1)) hm hw hr
  have hstore : memeDb ([record x ⟨e, u⟩].map fun r => if r.id = cStr x.text then
      { r with timesViewed := cStr (dec (v + 1)) } else r) = oneMeme x e (v + 1) := by
    rw [x.cStr_text, cStr_dec]
    simp [oneMeme, record]
  rw [hstore] at hw
  rw [if_pos hdone] at hr
  obtain ⟨_, _, w₂, rfl, hw, ht, hr⟩ := race_call .closing (ht.quiet fun _ => rfl) hm hw hr
  exact ⟨_, w₂, hr, hw, ht⟩

theorem Racing.arrive (h : Racing like x e v m ts) (hfresh : ∀ t ∈ ts, i.2 ≠ t.input.2) :
    Racing like x e v m (ts ++ [⟨i, [], serve i.2.text i.1⟩]) := by
  obtain ⟨w, hr, hw, ht⟩ := h
  refine ⟨w.arrive i, .step hr (.arrive trivial fun j hj => ?_), hw, ht⟩
  rw [← hr.inputs] at hj
  obtain ⟨t, htm, rfl⟩ := List.mem_map.1 hj
  exact hfresh t htm

theorem fresh_head {is : List Input} (h : ((ts.map fun t => t.input.2) ++ (i :: is).map Prod.snd).Nodup) :
    ∀ t ∈ ts, i.2 ≠ t.input.2 := by
  intro t ht he
  exact (List.nodup_append.1 h).2.2 _ (List.mem_map_of_mem ht) i.2 List.mem_cons_self he.symm

/-- Views that arrive one after the other and all read the same counter. -/
theorem Racing.read_all (hm : m < 2 ^ 31 - 1) (hv : v < 2 ^ 31 - 1) {is : List Input}
    (hi : ∀ i ∈ is, isGetFor x i.1 = true) (hfresh : ((ts.map fun t => t.input.2) ++ is.map Prod.snd).Nodup) (h : Racing like x e v m ts) :
    ∃ rs, rs.map Thread.input = is ∧ (∀ t ∈ rs, t.prog = writing x e v) ∧ Racing like x e v m (ts ++ rs) := by
  induction is generalizing ts with
  | nil => exact ⟨[], rfl, nofun, by rwa [List.append_nil]⟩
  | cons i is ih =>
    obtain ⟨tr, h⟩ := Racing.read (hi i List.mem_cons_self) hm hv (h.arrive (fresh_head hfresh))
    obtain ⟨rs, hrs, hprog, h⟩ := ih (fun j hj => hi j (List.mem_cons_of_mem _ hj)) (by simpa using hfresh) h
    refine ⟨⟨i, tr, writing x e v⟩ :: rs, by rw [List.map_cons, hrs], fun t ht => ?_, by simpa using h⟩
    rcases List.mem_cons.1 ht with rfl | ht
    · rfl
    · exact hprog t ht

/-- They write the same number, one after the other. -/
theorem Racing.write_all {rs : List (Thread Call Reply StdException Response Input)}
    (hrs : ∀ t ∈ rs, t.prog = writing x e v) (hm : m + rs.length < 2 ^ 31 - 1) (h : Racing like x e u m (ts ++ rs)) :
    ∃ rs', rs'.map Thread.input = rs.map Thread.input ∧ (∀ t ∈ rs', t.prog = .ret (shown ⟨e, v⟩)) ∧
      Racing like x e (if rs = [] then u else v + 1) (m + rs.length) (ts ++ rs') := by
  induction rs generalizing ts u m with
  | nil => exact ⟨[], rfl, nofun, h⟩
  | cons t rs ih =>
    obtain ⟨i, tr, p⟩ := t
    obtain rfl : p = writing x e v := hrs _ List.mem_cons_self
    rw [List.length_cons] at hm ⊢
    obtain ⟨tr', h⟩ := Racing.write (by omega) h
    rw [List.append_cons] at h
    obtain ⟨rs', hmap, hprog, h⟩ := ih (fun t ht => hrs t (List.mem_cons_of_mem _ ht)) (by omega) h
    refine ⟨⟨i, tr', .ret (shown ⟨e, v⟩)⟩ :: rs', by rw [List.map_cons, hmap, List.map_cons], fun t ht => ?_, ?_⟩
    · rcases List.mem_cons.1 ht with rfl | ht
      · rfl
      · exact hprog t ht
    · rw [if_neg (List.cons_ne_nil _ _), List.append_cons, show m + (rs.length + 1) = m + 1 + rs.length by omega]
      rwa [ite_id] at h

/-- Views of which each begins when the one before is done. -/
theorem Racing.one_by_one {is : List Input} (hm : m + is.length < 2 ^ 31 - 1) (hv : v + is.length < 2 ^ 31 - 1)
    (hi : ∀ i ∈ is, isGetFor x i.1 = true) (hfresh : ((ts.map fun t => t.input.2) ++ is.map Prod.snd).Nodup)
    (h : Racing like x e v m ts) : ∃ rs, rs.map Thread.input = is ∧ (∀ t ∈ rs, ∃ n, t.prog = .ret (shown ⟨e, n⟩)) ∧
      Racing like x e (v + is.length) (m + is.length) (ts ++ rs) := by
  induction is generalizing ts v m with
  | nil => exact ⟨[], rfl, nofun, by rwa [List.append_nil]⟩
  | cons i is ih =>
    rw [List.length_cons] at hm hv ⊢
    obtain ⟨tr, h⟩ := Racing.read (hi i List.mem_cons_self) (by omega) (by omega) (h.arrive (fresh_head hfresh))
    obtain ⟨tr, h⟩ := Racing.write (by omega) h
    obtain ⟨rs, hrs, hprog, h⟩ := ih (by omega) (by omega) (fun j hj => hi j (List.mem_cons_of_mem _ hj))
      (by simpa using hfresh) h
    refine ⟨⟨i, tr, .ret (shown ⟨e, v⟩)⟩ :: rs, by rw [List.map_cons, hrs], fun t ht => ?_, ?_⟩
    · rcases List.mem_cons.1 ht with rfl | ht
      · exact ⟨v, rfl⟩
      · exact hprog t ht
    · rw [List.append_cons, show v + (is.length + 1) = v + 1 + is.length by omega,
        show m + (is.length + 1) = m + 1 + is.length by omega]
      exact h

/-- A meme is created first. -/
theorem racing_created (like : Str → Str → Bool) (x : MemeId) :
    ∃ e tr, Racing like x e 0 0 [⟨(creation.1, x), tr, .ret (answerId 201 x)⟩] := by
  have hcreate : ∃ e, command creation.1 = .create e := by
    have h : ((readTexts creation.1.requestBody).toOption.getD none).isSome = true := by decide +kernel
    have hpost : command creation.1 = createCommand creation.1.requestBody := if_pos rfl
    unfold createCommand at hpost
    cases hr : readTexts creation.1.requestBody with
    | error x => simp [hr, Except.toOption] at h
    | ok o =>
      cases o with
      | none => simp [hr, Except.toOption] at h
      | some e => exact ⟨e, by rw [hpost, hr]⟩
  obtain ⟨e, hc⟩ := hcreate
  have hzero : Tally x (⟨[(creation.1, x)], memeDb [], []⟩ : MemeWorld) 0 := fun y => by simp [viewCount]
  have hr : Reachable (memesFew (computes like)) (memeDb [])
      ⟨⟨[(creation.1, x)], memeDb [], []⟩, [] ++ [⟨(creation.1, x), [], serve x.text creation.1⟩]⟩ :=
    .step .init (.arrive trivial fun _ hj => absurd hj List.not_mem_nil)
  rw [serve_eq, hc, Command.prog, change_bind] at hr
  obtain ⟨_, _, w₁, rfl, hw, ht, hr⟩ :=
    race_call .opening (hzero.quiet fun _ => rfl) (by decide) (rfl : memeDb [] = memeDb []) hr
  obtain ⟨_, _, w₂, rfl, hw, ht, hr⟩ := race_call .creating (ht.quiet fun _ => rfl) (by decide) hw hr
  obtain ⟨r, _, w₃, ha, hw, ht, hr⟩ := race_call (.insert x.text e.memeTemplate e.topCaption e.bottomCaption)
    (ht.quiet fun y => isView_call y _) (by decide) hw hr
  obtain ⟨htemplate, htop, hbottom⟩ := e.valid
  obtain ⟨hdone, rfl⟩ := ha.2 fun _ hj => absurd hj List.not_mem_nil
  rw [x.cStr_text, caption_noNul htemplate, caption_noNul htop, caption_noNul hbottom] at hw
  rw [if_pos hdone] at hr
  obtain ⟨_, _, w₄, rfl, hw, ht, hr⟩ := race_call .closing (ht.quiet fun _ => rfl) (by decide) hw hr
  have hrow : (⟨x.text, e.memeTemplate, e.topCaption, e.bottomCaption, str "0"⟩ : Record) = record x ⟨e, 0⟩ := by
    have h0 : dec 0 = str "0" := by decide
    rw [record, h0]
  rw [List.nil_append, hrow] at hw
  exact ⟨e, _, w₄, hr, hw, ht⟩

end Racing

/-! ## Enough UUIDs -/

def bitDigit (k j : Nat) : Byte := if k.testBit j then '1' else '0'

/-- Some of the binary digits of `k`. -/
def bitBlock (k i n : Nat) : Str := (List.range' i n).map (bitDigit k)

theorem bitDigit_hex (k j : Nat) : isHexDigit (bitDigit k j) = true := by
  unfold bitDigit
  split <;> decide

/-- The UUID with the binary digits of `k`. -/
def numberId (k : Nat) : MemeId where
  text := bitBlock k 0 8 ++ hyphen :: (bitBlock k 8 4 ++ hyphen :: (bitBlock k 12 4 ++ hyphen ::
    (bitBlock k 16 4 ++ hyphen :: bitBlock k 20 12)))
  valid := by
    refine (checkId_iff _).2 ⟨_, _, _, _, _, rfl, by simp [bitBlock], fun c hc => ?_⟩
    simp only [bitBlock, List.mem_append, List.mem_map] at hc
    rcases hc with ⟨j, -, rfl⟩ | ⟨j, -, rfl⟩ | ⟨j, -, rfl⟩ | ⟨j, -, rfl⟩ | ⟨j, -, rfl⟩
    all_goals exact bitDigit_hex k j

theorem numberId_digits (k : Nat) : (numberId k).text.filter (· ≠ hyphen) = bitBlock k 0 32 := by
  have hblock : ∀ i n, (bitBlock k i n).filter (· ≠ hyphen) = bitBlock k i n := by
    intro i n
    refine List.filter_eq_self.2 fun c hc => ?_
    obtain ⟨j, -, rfl⟩ := List.mem_map.1 hc
    unfold bitDigit
    split <;> decide
  have happend : bitBlock k 0 32 =
      bitBlock k 0 8 ++ (bitBlock k 8 4 ++ (bitBlock k 12 4 ++ (bitBlock k 16 4 ++ bitBlock k 20 12))) := by
    unfold bitBlock
    rw [← List.map_append, ← List.map_append, ← List.map_append, ← List.map_append]
    rfl
  rw [happend, numberId]
  simp only [List.filter_append, List.filter_cons, hblock, ne_eq, not_true, decide_false, Bool.false_eq_true, if_false]

theorem numberId_injective {k k' : Nat} (hk : k < 2 ^ 32) (hk' : k' < 2 ^ 32) (h : numberId k = numberId k') : k = k' := by
  have hdigits : bitBlock k 0 32 = bitBlock k' 0 32 := by rw [← numberId_digits, h, numberId_digits]
  refine Nat.eq_of_testBit_eq fun j => ?_
  by_cases hj : j < 32
  · have := List.map_inj_left.1 hdigits j (by simp [hj])
    unfold bitDigit at this
    by_cases h1 : k.testBit j <;> by_cases h2 : k'.testBit j <;> simp_all
  · have hle : 2 ^ 32 ≤ 2 ^ j := Nat.pow_le_pow_right (by decide) (by omega)
    rw [Nat.testBit_lt_two_pow (hk.trans_le hle), Nat.testBit_lt_two_pow (hk'.trans_le hle)]

theorem exists_fresh (x : MemeId) {n : Nat} (hn : n < 2 ^ 32 - 1) : ∃ l : List MemeId, l.length = n ∧ (x :: l).Nodup := by
  have hnodup : ((List.range (n + 1)).map numberId).Nodup := by
    refine List.Nodup.map_on (fun k hk k' hk' he => ?_) List.nodup_range
    rw [List.mem_range] at hk hk'
    exact numberId_injective (by omega) (by omega) he
  refine ⟨(((List.range (n + 1)).map numberId).erase x).take n, ?_, ?_⟩
  · rw [List.length_take]
    have hlength : ((List.range (n + 1)).map numberId).length = n + 1 := by rw [List.length_map, List.length_range]
    rw [List.length_erase]
    split <;> omega
  · refine List.nodup_cons.2 ⟨fun hx => ?_, (hnodup.erase x).sublist (List.take_sublist _ _)⟩
    exact hnodup.not_mem_erase (List.mem_of_mem_take hx)

/-! ## All the counters -/

theorem readViews_oneMeme (x : MemeId) (e : Texts) {v : Nat} (hv : v < 2 ^ 31) :
    readViews (oneMeme x e v) x = some (v : ℤ) := by
  rw [oneMeme, readViews_represents (represents_oneMeme x e v) (Function.update_self ..), stoi_dec hv]
  rfl

theorem countP_views {ts : List (Thread Call Reply StdException Response Input)}
    (hget : ∀ i ∈ ts.map Thread.input, isGetFor x i.1 = true) (hprog : ∀ t ∈ ts, ∃ e v, t.prog = .ret (shown ⟨e, v⟩)) :
    ts.countP (answeredView x) = ts.length := by
  refine List.countP_eq_length.2 fun t ht => ?_
  obtain ⟨e, v, hp⟩ := hprog t ht
  rw [answeredView, hp]
  simp [hget _ (List.mem_map_of_mem ht), shown, respond]

/-- The requests of some views. -/
def viewers (x : MemeId) (l : List MemeId) : List Input := l.map fun u => (viewRequest x, u)

theorem viewers_snd (x : MemeId) (l : List MemeId) : (viewers x l).map Prod.snd = l := by simp [viewers]

theorem viewers_length (x : MemeId) (l : List MemeId) : (viewers x l).length = l.length := List.length_map _

theorem viewers_get (x : MemeId) (l : List MemeId) : ∀ i ∈ viewers x l, isGetFor x i.1 = true := by
  intro i hi
  obtain ⟨u, -, rfl⟩ := List.mem_map.1 hi
  exact isGetFor_viewRequest x

/-- `r` views of a new meme that count as one, and then `s` views that all count. -/
theorem exists_race (like : Str → Str → Bool) (x : MemeId) (r s : Nat) (hn : r + s < 2 ^ 31 - 1) :
    ∃ e p, Reachable (memesFew (computes like)) (memeDb []) p ∧ Finished p ∧
      p.threads.countP (answeredView x) = r + s ∧ p.world.store = oneMeme x e ((if r = 0 then 0 else 1) + s) := by
  obtain ⟨l, hl, hfresh⟩ := exists_fresh x (show r + s < 2 ^ 32 - 1 by omega)
  obtain ⟨l₁, l₂, rfl, rfl⟩ : ∃ l₁ l₂ : List MemeId, l = l₁ ++ l₂ ∧ l₁.length = r :=
    ⟨_, _, (List.take_append_drop r l).symm, by rw [List.length_take]; omega⟩
  obtain rfl : l₂.length = s := by
    rw [List.length_append] at hl
    omega
  obtain ⟨e, tr, h⟩ := racing_created like x
  -- the first views read `0`, and then each of them writes `1`
  obtain ⟨rs, hrs, hprog, h⟩ := Racing.read_all (by decide) (by decide) (viewers_get x l₁)
    (by rw [viewers_snd]; exact hfresh.sublist (by simp)) h
  have hrslen : rs.length = l₁.length := by rw [← List.length_map Thread.input, hrs, viewers_length]
  have hzero : (if rs = [] then 0 else 0 + 1) = if l₁.length = 0 then 0 else 1 := by
    rw [← hrslen]
    cases rs <;> rfl
  obtain ⟨rs', hrs', hprog', h⟩ := Racing.write_all hprog (by rw [hrslen]; omega) h
  rw [hzero, hrslen, Nat.zero_add] at h
  have hsnd : rs'.map (fun t => t.input.2) = l₁ := by
    have := congrArg (List.map Prod.snd) (hrs'.trans hrs)
    rwa [viewers_snd, List.map_map] at this
  -- each of the others reads what the one before it wrote
  obtain ⟨qs, hqs, hprogq, w, hr, hw, -⟩ := Racing.one_by_one (by rw [viewers_length]; omega)
    (by rw [viewers_length]; split <;> omega) (viewers_get x l₂) (by simpa [viewers_snd, hsnd] using hfresh) h
  have hqslen : qs.length = l₂.length := by rw [← List.length_map Thread.input, hqs, viewers_length]
  have hrslen' : rs'.length = l₁.length := by rw [← List.length_map Thread.input, hrs', List.length_map, hrslen]
  have hdone : ∀ t ∈ rs' ++ qs, ∃ e v, t.prog = .ret (shown ⟨e, v⟩) := by
    intro t ht
    rcases List.mem_append.1 ht with ht | ht
    · exact ⟨e, 0, hprog' t ht⟩
    · exact ⟨e, hprogq t ht⟩
  have hget : ∀ i ∈ (rs' ++ qs).map Thread.input, isGetFor x i.1 = true := by
    rw [List.map_append, hrs', hrs, hqs, viewers, viewers, ← List.map_append]
    exact viewers_get x _
  refine ⟨e, _, hr, fun t ht => ?_, ?_, by rwa [viewers_length] at hw⟩
  · rw [List.append_assoc] at ht
    rcases List.mem_append.1 ht with ht | ht
    · rw [List.mem_singleton.1 ht]
      exact .inl ⟨_, rfl⟩
    · obtain ⟨e, v, hp⟩ := hdone t ht
      exact .inl ⟨_, hp⟩
  · have hcreation : answeredView x ⟨(creation.1, x), tr, .ret (answerId 201 x)⟩ = false := rfl
    rw [List.append_assoc, List.countP_append, countP_views hget hdone, List.countP_singleton, hcreation,
      List.length_append, hrslen', hqslen]
    simp

/-- What `n` answered views of a meme can leave in its counter is any number from one to `n`. -/
theorem possible_views (x : MemeId) {n : Nat} (hn : n < 2 ^ 31 - 1) (v : Nat) :
    (∃ like engine p, Documented like engine ∧ Reachable (memesFew engine) (memeDb []) p ∧ Finished p ∧
      p.threads.countP (answeredView x) = n ∧ readViews p.world.store x = some (v : ℤ)) ↔ min n 1 ≤ v ∧ v ≤ n := by
  constructor
  · rintro ⟨like, engine, p, hd, h, hfinished, rfl, hv⟩
    exact views_between hd h hfinished hv
  · rintro ⟨hle, hge⟩
    let r := if n = 0 then 0 else n - v + 1
    have hr : r + (v - 1) = n ∧ (if r = 0 then 0 else 1) + (v - 1) = v := by
      unfold r
      split <;> simp <;> omega
    obtain ⟨e, p, h, hfinished, hcount, hstore⟩ := exists_race (fun _ _ => true) x r (v - 1) (by omega)
    rw [hr.2] at hstore
    refine ⟨_, _, p, documented_computes _, h, hfinished, hcount.trans hr.1, ?_⟩
    rw [hstore]
    exact readViews_oneMeme x e (by omega)

/-- Three views can count as one. -/
theorem possible_views_lost : ∃ like engine p, Documented like engine ∧ Reachable (memesFew engine) (memeDb []) p ∧
    Finished p ∧ p.threads.countP (answeredView sampleId) = 3 ∧ readViews p.world.store sampleId = some ((1 : Nat) : ℤ) :=
  (possible_views sampleId (by decide) 1).2 (by decide)

end GittyUp.Meme
