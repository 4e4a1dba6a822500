import GittyUp.Meme.Store
/-!
# Counted views

`get_meme_by_id` reads the counter and writes its successor in two statements,
with other requests in between. `views_counted` says that in a run in which no
update meets a counter other than the one its thread has read, no view is lost.
-/
open Lib Lib.Sql GittyUp.Http GittyUp.SqlLib

namespace GittyUp.Meme

/-- A `GET` for the meme `x`. -/
def isGetFor (x : MemeId) (req : Request) : Bool := req.method = str "GET" && cStr (checkUri req.uri) = x.text

/-- A thread that has answered a `GET` for `x` with status 200. -/
def answeredView (x : MemeId) (t : Thread Call Reply StdException Response Input) : Bool :=
  match t.prog with
  | .ret resp => isGetFor x t.input.1 && resp.statusCode = 200
  | _ => false

def Finished (p : Pool Db Call Reply StdException Response Input) : Prop :=
  ∀ t ∈ p.threads, (∃ resp, t.prog = .ret resp) ∨ ∃ e, t.prog = .throw e

/-- An update of a counter. -/
def isCount (c : Call) : Bool :=
  match c with
  | .run sql _ => sql = Statement.countSql
  | _ => false

def storedRows (db : Db) : List Row := ((db.lookup tableName).map Table.rows).getD []

/-- A counter update finds in the table what its thread has read, and room for one more. -/
def Unraced (tr : Trace) (op : Call) (w _ : MemeWorld) : Prop :=
  isCount op = true → ∀ c ∈ tr, ∀ row ∈ c.2.rows, entry row 4 ≠ dec (2 ^ 31 - 1) ∧
    ∀ row' ∈ storedRows w.store, entry row' 0 = entry row 0 → entry row' 4 = entry row 4

instance (tr : Trace) (op : Call) (w w' : MemeWorld) : Decidable (Unraced tr op w w') := by
  unfold Unraced
  infer_instance

/-- The counter of each meme in the table is the number of its views that were answered with status 200. -/
def ViewsCounted (p : Pool Db Call Reply StdException Response Input) : Prop :=
  ∃ ms, p.world.store = memeDb ms ∧ ∀ m ∈ ms, ∃ x : MemeId, m.id = x.text ∧
    m.timesViewed = dec (p.threads.countP (answeredView x))

/-! ## Requests for a meme -/

theorem MemeId.length_text (x : MemeId) : x.text.length = 36 := by
  obtain ⟨a, b, c, d, e, h, ⟨ha, hb, hc, hd, he⟩, -⟩ := (checkId_iff x.text).1 x.valid
  rw [h]
  simp only [List.length_append, List.length_cons]
  omega

/-- An id is no page and no list. -/
theorem getCommand_id {check : Str} {x : MemeId} (h : cStr check = x.text) : getCommand check = .view x := by
  have hne : ∀ w : Str, (cStr w).length ≠ 36 → check ≠ w := by
    rintro _ hw rfl
    rw [h, x.length_text] at hw
    exact hw rfl
  have hslash : ∀ n w, (∀ c ∈ w, c ≠ 0) → (('/' : Char) : Byte) ∈ w → check.take n ≠ w := by
    rintro n _ hw hmem rfl
    have hmem : (('/' : Char) : Byte) ∈ x.text := by
      rw [← h, ← List.take_append_drop n check, cStr_append_of_noNul hw]
      exact List.mem_append_left _ hmem
    rcases checkId_chars x.valid _ hmem with h | h
    · exact absurd h (by decide)
    · exact absurd h (by decide)
  have hid : checkId (cStr check) = true := h ▸ x.valid
  unfold getCommand
  rw [if_neg, if_neg, if_neg, if_neg, if_neg, if_neg, dif_pos hid]
  · congr 1
    exact MemeId.text_injective h
  · exact fun hs => hslash 7 _ (by decide) (by decide) hs.2
  · exact not_or.2 ⟨hne _ (by decide), hne _ (by decide)⟩
  · exact fun hs => hslash 5 _ (by decide) (by decide) hs.2
  · exact fun hs => hslash 7 _ (by decide) (by decide) hs.2
  · exact not_or.2 ⟨hne _ (by decide), hne _ (by decide)⟩
  · exact not_or.2 ⟨hne _ (by decide), hne _ (by decide)⟩

theorem getCommand_view {check : Str} {x : MemeId} (h : getCommand check = .view x) : cStr check = x.text := by
  unfold getCommand at h
  split_ifs at h
  · cases hd : uriDecode (check.drop 7) <;> rw [hd] at h <;> cases h
  · cases h
    rfl

theorem viewOf_iff (req : Request) (x : MemeId) : viewOf req = some x ↔ isGetFor x req = true := by
  rw [viewOf_eq_some, isGetFor, Bool.and_eq_true, decide_eq_true_eq, decide_eq_true_eq]
  constructor
  · intro h
    unfold command at h
    split_ifs at h with h1 h2 h3 h4
    · unfold createCommand at h
      split at h <;> cases h
    · unfold updateCommand at h
      split at h
      · cases h
      · cases h
      · split_ifs at h
    · unfold deleteCommand at h
      split_ifs at h
    · exact ⟨h4, getCommand_view h⟩
  · rintro ⟨hget, hx⟩
    rw [command_get hget]
    exact getCommand_id hx

/-! ## Counting -/

/-- Without races a counter is the number of its updates. -/
def exactly : Counting Unraced where
  tracks n N := n = N
  zero := rfl
  le := le_of_eq
  step {tr x a r db' w ms M c} hc hrow hsmall _ hstore hr htracks hal := by
    have hrow : (record x a).row ∈ c.2.rows := by
      rw [hrow]
      exact List.mem_singleton_self _
    have hcount : isCount (Statement.count x.text (decInt (succInt a.views))).call = true := by
      simp [isCount, Statement.call]
    obtain ⟨hroom, hsame⟩ := hal hcount c hc _ hrow
    have hlt : a.views ≠ 2 ^ 31 - 1 := fun he => hroom (congrArg dec he)
    refine ⟨by omega, fun b hb => ?_⟩
    have hmem : (record x b).row ∈ storedRows w.store := by
      rw [hstore, storedRows, Statement.lookup_memeDb]
      exact List.mem_map_of_mem (hr.mem hb)
    have hviews : b.views = a.views := dec_injective (hsame _ hmem rfl)
    rw [← htracks b hb, hviews]

/-- The updates in the log are those of the threads that answered a view. -/
theorem viewCount_threads {x : MemeId} {threads : List (Thread Call Reply StdException Response Input)}
    (h : ∀ t ∈ threads, viewCount x t.trace = if answeredView x t then 1 else 0) {log : Trace}
    (hlog : log.Perm (threads.flatMap Thread.trace)) : viewCount x log = threads.countP (answeredView x) := by
  rw [viewCount, hlog.countP_eq]
  clear hlog
  induction threads with
  | nil => rfl
  | cons t ts ih =>
    rw [List.flatMap_cons, List.countP_append, ih fun t ht => h t (List.mem_cons_of_mem _ ht), List.countP_cons]
    have := h t List.mem_cons_self
    rw [viewCount] at this
    rw [this, Nat.add_comm]

/-- In a run in which each counter update finds the counter that its thread has
read, and below `2^31 - 1`, no view is lost when all have finished. -/
theorem views_counted {like : Str → Str → Bool} {engine : Db → Call → Reply → Db → Prop} (hd : Documented like engine)
    {p : Pool Db Call Reply StdException Response Input} (h : Reachable (memeSystem engine Unraced) (memeDb []) p)
    (hfinished : Finished p) : ViewsCounted p := by
  obtain ⟨⟨ms, M, hinv⟩, hthreads⟩ := reachable_inv hd exactly h
  refine ⟨ms, hinv.store, fun m hm => ?_⟩
  obtain ⟨x, a, hx, rfl⟩ := (hinv.represents.mem_iff m).1 hm
  refine ⟨x, rfl, ?_⟩
  have hviews : a.views = viewCount x p.world.log := hinv.tracks hx
  rw [← viewCount_threads (fun t ht => ?_) h.log_perm, ← hviews]
  · rfl
  · obtain ⟨resp, hp⟩ | ⟨e, hp⟩ := hfinished t ht
    · rw [((hthreads t ht).1 _ hp).counted x, answeredView, hp]
      simp only [isOk, viewOf_iff, Bool.and_eq_true]
    · rw [((hthreads t ht).2 _ hp).counted x, answeredView, hp]
      simp [isOk]

/-! ## With and without a race -/

def finished (p : Pool Db Call Reply StdException Response Input) : Bool :=
  p.threads.all fun t => match t.prog with | .call _ _ => false | _ => true

theorem finished_iff (p : Pool Db Call Reply StdException Response Input) : finished p = true ↔ Finished p := by
  unfold finished Finished
  rw [List.all_eq_true]
  refine forall₂_congr fun t _ => ?_
  cases t.prog <;> simp

/-- One view after the other. -/
def turns : List (Event Input) :=
  [.arrive creation, .call 0, .call 0, .call 0, .call 0, .arrive (viewing firstId), .arrive (viewing secondId),
   .call 1, .call 1, .call 1, .call 1, .call 1, .call 1, .call 2, .call 2, .call 2, .call 2, .call 2, .call 2]

theorem views_counted_turns : ∃ p, (memeReplay fun tr op w w' => decide (Unraced tr op w w')).run (memeDb []) turns = some p ∧
    ViewsCounted p := by
  have h : ((memeReplay fun tr op w w' => decide (Unraced tr op w w')).run (memeDb []) turns).any finished = true := by
    decide +kernel
  obtain ⟨p, hp, hfinished⟩ := (Option.any_eq_true _ _).1 h
  exact ⟨p, hp, views_counted (documented_computes _)
    ((memeReplay_fits fun _ _ _ _ => of_decide_eq_true).reachable hp) ((finished_iff p).1 hfinished)⟩

/-- Two views that race are both answered, and counted once. -/
theorem views_lost : ∃ p, Reachable (memeSystem (computes fun _ _ => true) anyOrder) (memeDb []) p ∧ Finished p ∧
    ¬ ViewsCounted p := by
  have h : ((memeReplay fun _ _ _ _ => true).run (memeDb []) race).any (fun p => finished p &&
      p.threads.countP (answeredView sampleId) = 2 &&
      (storedRows p.world.store).any fun row => entry row 0 = sampleId.text && entry row 4 = dec 1) = true := by
    decide +kernel
  obtain ⟨p, hp, hrace⟩ := (Option.any_eq_true _ _).1 h
  simp only [Bool.and_eq_true, decide_eq_true_eq, List.any_eq_true] at hrace
  obtain ⟨⟨hfinished, hcount⟩, row, hrow, hid, hviews⟩ := hrace
  refine ⟨p, (memeReplay_fits fun _ _ _ _ _ => trivial).reachable hp, (finished_iff p).1 hfinished, ?_⟩
  rintro ⟨ms, hstore, hms⟩
  rw [hstore, storedRows, Statement.lookup_memeDb] at hrow
  obtain ⟨m, hm, rfl⟩ := List.mem_map.1 hrow
  obtain ⟨x, hx, hv⟩ := hms m hm
  cases MemeId.text_injective (hx.symm.trans hid)
  rw [hcount] at hv
  exact absurd (dec_injective (hviews.symm.trans hv)) (by decide)

end GittyUp.Meme
