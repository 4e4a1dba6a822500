import GittyUp.Lib.Atomic
import GittyUp.Meme.Contents
/-!
# Requests at an instant

Concurrent views can lose counts. All else is atomic: for what the memes show,
whatever the order of the statements, each request acts on the store at one
instant between its arrival and its answer (`memes_linearizable`). Calls that
fail do not change that: a change that is refused has not happened
(`failures_linearizable`).
-/
open Lib Lib.Sql GittyUp.Http GittyUp.SqlLib

namespace GittyUp.Meme

/-! ## The store, one request at a time -/

/-- A meme with the query in one of its captions. -/
def Texts.matching (like : Str → Str → Bool) (q : Str) (e : Texts) : Bool :=
  like (str "%" ++ cStr q ++ str "%") e.topCaption || like (str "%" ++ cStr q ++ str "%") e.bottomCaption

/-- The memes that are asked for. -/
def Contents.those (C : Contents) (keep : Texts → Bool) : Set (MemeId × Texts) :=
  { p | C p.1 = some p.2 ∧ keep p.2 = true }

namespace Command

/-- What a command makes of the contents. -/
def write (uuid : MemeId) (C : Contents) : Command → Contents
  | create e => Function.update C uuid (some e)
  | update x e => Function.update C x ((C x).map fun _ => e)
  | delete x => Function.update C x none
  | _ => C

/-- What a command is answered by the contents. -/
def Answers (like : Str → Str → Bool) (uuid : MemeId) (C : Contents) (out : Except StdException Response) : Command → Prop
  | create _ => out = .ok (answerId 201 uuid)
  | update x _ => out = .ok (answerId 200 x)
  | delete x => out = .ok (answerId 200 x)
  | view x => out = .ok (((C x).map fun e => shown ⟨e, 0⟩).getD notFound)
  | missing _ _ => out = .ok notFound
  | list => ∃ body, out = .ok (listAnswer body) ∧ Listed (C.those fun _ => true) body
  | search q => ∃ body, out = .ok (listAnswer body) ∧ Listed (C.those (Texts.matching like q)) body
  | settled answer => out = answer

/-- What a command is answered when its statement fails. -/
def Fails (like : Str → Str → Bool) (C : Contents) (out : Except StdException Response) : Command → Prop
  | create _ => out = .ok (failure "An error occurred while trying to create the provided meme!\n")
  | update _ _ => out = .ok (failure "An error occurred while trying to update the provided meme!\n")
  | delete _ => out = .ok (failure "An error occurred while trying to delete the provided meme!\n")
  | view _ => out = .ok notFound
  | missing _ _ => False
  | list => ∃ S body, S ⊆ C.those (fun _ => true) ∧ out = .ok (listAnswer body) ∧ Listed S body
  | search q => ∃ S body, S ⊆ C.those (Texts.matching like q) ∧ out = .ok (listAnswer body) ∧ Listed S body
  | settled _ => False

end Command

/-- The memes' contents, one request at a time. If calls can fail, a request may
be answered with the failure, and then changes nothing. -/
def memeObject (faults : Prop) (like : Str → Str → Bool) (C₀ : Contents) :
    AtomicObject Contents Input StdException Response where
  init := C₀
  perform C i out C' :=
    ((command i.1).Answers like i.2 C out ∧ C' = (command i.1).write i.2 C) ∨
    (faults ∧ (command i.1).Fails like C out ∧ C' = C)

/-- The database holds memes with these contents. -/
def HoldsContents (faults : Prop) (db : Db) (C : Contents) : Prop := ∃ ms, Held faults db ms ∧ Shows ms C

/-- Requests that find these memes, and draw other ids. -/
def memesFrom (engine : Db → Call → Reply → Db → Prop) (C₀ : Contents) :
    System Db Call Reply StdException Response Input :=
  { memeSystem engine anyOrder with admissible := fun i => C₀ i.2 = none }

theorem HoldsContents.unique {faults : Prop} {db : Db} {C C' : Contents} (h : HoldsContents faults db C)
    (h' : HoldsContents faults db C') : C = C' := by
  obtain ⟨ms, hheld, hshows⟩ := h
  obtain ⟨ms', hheld', hshows'⟩ := h'
  cases hheld.unique hheld'
  exact hshows.unique hshows'

/-- The contents are those of the table, and whatever is new was born, and drawn. -/
structure InStep (faults : Prop) (C₀ : Contents) (w : MemeWorld) (C : Contents) : Prop where
  holds : HoldsContents faults w.store C
  born : ∀ {x}, C₀ x = none → C x ≠ none → Born x w.log
  drawn : ∀ {x}, Born x w.log → x ∈ w.inputs.map Prod.snd

/-! ## When a request takes effect -/

section Outlines
variable {faults : Prop} {like : Str → Str → Bool} {engine : Db → Call → Reply → Db → Prop} {C₀ : Contents} {i : Input}
  {tr : Trace} {w : MemeWorld} {x : Except StdException Response}

/-- A thread that has yet to take effect. -/
def Before (faults : Prop) (like : Str → Str → Bool) (engine : Db → Call → Reply → Db → Prop) (C₀ : Contents) (i : Input)
    (p : SqlProg Response) (tr : Trace) (w : MemeWorld) : Prop :=
  Effective (memesFrom engine C₀) (memeObject faults like C₀) (InStep faults C₀) (Steady i) (Own i) i p tr w

/-- A thread that has taken effect, and will answer `x`. -/
def Behind (faults : Prop) (engine : Db → Call → Reply → Db → Prop) (C₀ : Contents) (i : Input)
    (x : Except StdException Response) (p : SqlProg Response) (tr : Trace) (w : MemeWorld) : Prop :=
  Effected (memesFrom engine C₀) (InStep faults C₀) (Steady i) (Own i) x p tr w

/-- Behind a statement by which no more memes are there than were born. -/
theorem InStep.after {C C' : Contents} {c : Call × Reply} {db' : Db} (h : InStep faults C₀ w C)
    (hholds : HoldsContents faults db' C') (hborn : ∀ y, C' y ≠ none → C y ≠ none ∨ isBirth y c = true)
    (hbirth : ∀ y, isBirth y c = true → y ∈ w.inputs.map Prod.snd) : InStep faults C₀ (w.after c.1 c.2 db') C' := by
  refine ⟨hholds, fun {y} hy₀ hy => born_snoc.2 ?_, fun {y} hy => ?_⟩
  · rcases hborn y hy with hy | hy
    · exact .inl (h.born hy₀ hy)
    · exact .inr hy
  · rcases born_snoc.1 hy with hy | hy
    · exact h.drawn hy
    · exact hbirth y hy

/-- A statement that inserts nothing, behind the one that takes effect or before it. -/
theorem InStep.quiet {C : Contents} {st : Statement} {r : Reply} {db' : Db} (h : InStep faults C₀ w C)
    (hbirth : ∀ y, isBirth y (st.call, r) = false) (hholds : HoldsContents faults db' C) :
    Own i w (w.after st.call r db') ∧ Steady i w (w.after st.call r db') ∧ InStep faults C₀ (w.after st.call r db') C := by
  have hno : ∀ y, ¬ isBirth y (st.call, r) = true := fun y => Bool.eq_false_iff.1 (hbirth y)
  exact ⟨Own.quiet (c := (st.call, r)) (fun y hy => absurd hy (hno y)) _, Steady.quiet (c := (st.call, r)) hbirth _,
    h.after (c := (st.call, r)) hholds (fun _ hy => .inl hy) fun y hy => absurd hy (hno y)⟩

/-- A statement that changes nothing, before the one that takes effect. -/
theorem before_idle (hs : Serves faults like engine) (st : Statement) (hbirth : ∀ y r, isBirth y (st.call, r) = false)
    (hacts : ∀ {ms r ms'}, st.Acts like ms r ms' → ms' = ms) {k : Reply → SqlProg Response}
    (h : ∀ {w₂ r}, Steady i w w₂ → Before faults like engine C₀ i (k r) (tr ++ [(st.call, r)]) w₂) :
    Before faults like engine C₀ i (.call st.call k) tr w := by
  rintro w₁ C hw hkept r db' hsem -
  obtain ⟨ms, hheld, hshows⟩ := hkept.holds
  obtain ⟨ms', hheld', houtcome⟩ := hs hheld hsem
  obtain rfl : ms' = ms := houtcome.elim hacts fun h => h.2.2.1
  obtain ⟨hown, hsteady, hkept'⟩ := hkept.quiet (i := i) (fun y => hbirth y r) ⟨ms', hheld', hshows⟩
  exact ⟨hown, .inl ⟨hkept', h (hw.trans hsteady)⟩⟩

/-- The statement that takes effect. -/
theorem before_effect (hs : Serves faults like engine) (hi : i ∈ w.inputs) (st : Statement)
    (hbirth : ∀ y r, isBirth y (st.call, r) = true → y = i.2) {k : Reply → SqlProg Response}
    (h : ∀ {w₁ ms C r ms'}, Steady i w w₁ → InStep faults C₀ w₁ C → Shows ms C → st.Outcome faults like ms r ms' →
      ∃ x C', (memeObject faults like C₀).perform C i x C' ∧ Shows ms' C' ∧
        (∀ y, C' y ≠ none → C y ≠ none ∨ isBirth y (st.call, r) = true) ∧ ∀ tr w, Behind faults engine C₀ i x (k r) tr w) :
    Before faults like engine C₀ i (.call st.call k) tr w := by
  rintro w₁ C hw hkept r db' hsem -
  obtain ⟨ms, hheld, hshows⟩ := hkept.holds
  obtain ⟨ms', hheld', houtcome⟩ := hs hheld hsem
  obtain ⟨x, C', hperform, hshows', hborn, hbehind⟩ := h hw hkept hshows houtcome
  refine ⟨Own.quiet (c := (st.call, r)) (fun y hy => hbirth y r hy) _, .inr ⟨x, C', hperform, ?_, hbehind _ _⟩⟩
  refine hkept.after (c := (st.call, r)) ⟨ms', hheld', hshows'⟩ hborn fun y hy => ?_
  rw [hbirth y r hy]
  exact List.mem_map_of_mem (hw.inputs.subset hi)

/-- A statement behind it, which leaves the contents as they are. -/
theorem behind_statement (hs : Serves faults like engine) (st : Statement)
    (hbirth : ∀ y r, isBirth y (st.call, r) = false)
    (hacts : ∀ {ms C r ms'}, Shows ms C → st.Acts like ms r ms' → Shows ms' C) {k : Reply → SqlProg Response}
    (h : ∀ r tr w, Behind faults engine C₀ i x (k r) tr w) : Behind faults engine C₀ i x (.call st.call k) tr w := by
  rintro w₁ C - hkept r db' hsem -
  obtain ⟨ms, hheld, hshows⟩ := hkept.holds
  obtain ⟨ms', hheld', houtcome⟩ := hs hheld hsem
  have hshows' : Shows ms' C := by
    rcases houtcome with ha | ⟨-, -, rfl, -⟩
    · exact hacts hshows ha
    · exact hshows
  obtain ⟨hown, -, hkept'⟩ := hkept.quiet (i := i) (fun y => hbirth y r) ⟨ms', hheld', hshows'⟩
  exact ⟨hown, hkept', h r _ _⟩

/-- The call that closes a statement, if it is made. -/
theorem behind_closing (hs : Serves faults like engine) {p : SqlProg Response} (r : Reply)
    (h : ∀ tr w, Behind faults engine C₀ i x p tr w) :
    Behind faults engine C₀ i x (if r.done then .call Statement.closing.call fun _ => p else p) tr w := by
  split
  · exact behind_statement hs .closing (fun _ _ => rfl) (fun hshows ha => ha ▸ hshows) fun _ => h
  · exact h _ _

/-- A change takes effect when it is executed: it succeeds, or fails and changes nothing. -/
theorem before_change (hs : Serves faults like engine) (hi : i ∈ w.inputs) (st : Statement) {sql : Str} {values : List Str}
    (hst : st.call = .run sql (bindTexts values)) (hbirth : ∀ y r, isBirth y (st.call, r) = true → y = i.2)
    {a b : Response} (hb : ∀ C, (command i.1).Fails like C (.ok b))
    (h : ∀ {w₁ ms C r ms'}, Steady i w w₁ → InStep faults C₀ w₁ C → Shows ms C → st.Acts like ms r ms' →
      r.done = true ∧ (command i.1).Answers like i.2 C (.ok a) ∧ Shows ms' ((command i.1).write i.2 C) ∧
        ∀ y, (command i.1).write i.2 C y ≠ none → C y ≠ none ∨ isBirth y (st.call, r) = true) :
    Before faults like engine C₀ i (change sql values >>= fun done => if done then .ret a else .ret b) tr w := by
  rw [change_bind, ← hst]
  refine before_effect hs hi st hbirth fun {w₁ ms C r ms'} hw hkept hshows houtcome => ?_
  rcases houtcome with ha | ⟨hf, hr, rfl, -⟩
  · obtain ⟨hdone, hanswer, hshows', hborn⟩ := h hw hkept hshows ha
    refine ⟨.ok a, _, .inl ⟨hanswer, rfl⟩, hshows', hborn, fun tr w => ?_⟩
    rw [if_pos hdone]
    exact behind_statement hs .closing (fun _ _ => rfl) (fun hshows ha => ha ▸ hshows) fun _ _ _ => rfl
  · refine ⟨.ok b, C, .inr ⟨hf, hb C, rfl⟩, hshows, fun _ hy => .inl hy, fun tr w => ?_⟩
    rw [hr]
    rfl

/-- A query takes effect when it is executed. -/
theorem before_collect (hs : Serves faults like engine) (hi : i ∈ w.inputs) (st : Statement) {sql : Str}
    {values : List Str} (hst : st.call = .run sql (bindTexts values)) (hbirth : ∀ y r, isBirth y (st.call, r) = false)
    {k : List Row → SqlProg Response} {keep : Record → Bool} (hk : st.keeps like = some keep)
    (hwrite : ∀ C, (command i.1).write i.2 C = C)
    (h : ∀ {ms C found}, Shows ms C → List.Subperm found (ms.filter keep) → found.Perm (ms.filter keep) ∨ faults →
      ∃ x, ((command i.1).Answers like i.2 C x ∨ faults ∧ (command i.1).Fails like C x) ∧
        ∀ tr w, Behind faults engine C₀ i x (k (found.map Record.row)) tr w) :
    Before faults like engine C₀ i (collect sql values >>= k) tr w := by
  rw [collect_bind, ← hst]
  refine before_effect hs hi st (fun y r hy => ?_) fun {w₁ ms C r ms'} _ _ hshows houtcome => ?_
  · cases (hbirth y r).symm.trans hy
  · obtain ⟨rfl, found, hrows, hsub, hall⟩ := houtcome.finds hk
    obtain ⟨x, hanswer, hbehind⟩ := h hshows hsub hall
    have hread : r.rows.map (·.map cStr) = found.map Record.row := by
      rw [hrows, List.map_map]
      refine List.map_congr_left fun m hm => ?_
      obtain ⟨y, e, n, -, -, rfl⟩ := hshows.rows_found hsub m hm
      exact cStr_counted y e n
    refine ⟨x, C, ?_, hshows, fun _ hy => .inl hy, fun tr w => ?_⟩
    · rcases hanswer with hanswer | ⟨hf, hanswer⟩
      · exact .inl ⟨hanswer, (hwrite C).symm⟩
      · exact .inr ⟨hf, hanswer, rfl⟩
    · rw [hread]
      exact behind_closing hs r hbehind

/-- A view takes effect when it reads the meme. What it counts then shows nowhere. -/
theorem before_view (hs : Serves faults like engine) (hi : i ∈ w.inputs) {y : MemeId} (hc : command i.1 = .view y) :
    Before faults like engine C₀ i (getMemeById y.text) tr w := by
  have hk : (Statement.find y.text).keeps like = some fun m : Record => decide (m.id = y.text) := by
    show (some fun m : Record => decide (m.id = cStr y.text)) = _
    rw [y.cStr_text]
  refine before_collect hs hi (.find y.text) rfl (fun x r => isBirth_call x _ r) hk (fun C => by rw [hc]; rfl)
    fun {ms C found} hshows hsub hall => ?_
  rw [hc]
  obtain rfl | ⟨e, n, hy, hn, rfl⟩ := hshows.find hsub
  · refine ⟨.ok notFound, ?_, fun tr w => rfl⟩
    rcases hall with hall | hf
    · have hnone : C y = none := by
        rw [Option.eq_none_iff_forall_ne_some]
        intro e he
        obtain ⟨n, hn⟩ := hshows.mem he
        have := hall.symm.subset (List.mem_filter.2 ⟨hn, decide_eq_true rfl⟩)
        cases this
      left
      rw [Command.Answers, hnone]
      rfl
    · exact .inr ⟨hf, rfl⟩
  · refine ⟨.ok (shown ⟨e, 0⟩), .inl ?_, fun tr w => ?_⟩
    · rw [Command.Answers, hy]
      rfl
    · rw [List.map_singleton, viewRows_counted y e hn, change_bind]
      refine behind_statement hs (.count y.text (decInt (succInt n))) (fun x r => isBirth_call x _ r)
        (fun hshows ha => hshows.count (isInt_succInt n) ha) fun r tr w => ?_
      exact behind_closing hs r (p := .ret (shown ⟨e, 0⟩)) fun _ _ => rfl

/-- A list takes effect when its rows are read. -/
theorem before_listed (hs : Serves faults like engine) (hi : i ∈ w.inputs) (st : Statement) {sql : Str}
    {values : List Str} (hst : st.call = .run sql (bindTexts values)) (hbirth : ∀ y r, isBirth y (st.call, r) = false)
    {keep : Record → Bool} (hk : st.keeps like = some keep) (keep' : Texts → Bool)
    (hkeep : ∀ x e n, keep (counted x e n) = keep' e) (hwrite : ∀ C, (command i.1).write i.2 C = C)
    (hanswers : ∀ C body, Listed (C.those keep') body → (command i.1).Answers like i.2 C (.ok (listAnswer body)))
    (hfails : ∀ C S body, S ⊆ C.those keep' → Listed S body → (command i.1).Fails like C (.ok (listAnswer body))) :
    Before faults like engine C₀ i (collect sql values >>= answerList) tr w := by
  refine before_collect hs hi st hst hbirth hk hwrite fun {ms C found} hshows hsub hall => ?_
  obtain ⟨S, body, hbody, hlisted, hS, hfull⟩ := answerList_listed hshows keep' hkeep hsub
  refine ⟨.ok (listAnswer body), ?_, fun tr w => ?_⟩
  · rcases hall with hall | hf
    · rw [hfull hall] at hlisted
      exact .inl (hanswers C body hlisted)
    · exact .inr ⟨hf, hfails C S body hS hlisted⟩
  · rw [hbody]
    rfl

/-- Every command but a settled one takes effect at its first statement. -/
theorem before_command (hs : Serves faults like engine) (hi : i ∈ w.inputs) (hi₀ : C₀ i.2 = none)
    (hn : ¬ Born i.2 w.log) (hset : ∀ answer, command i.1 ≠ .settled answer) :
    Before faults like engine C₀ i ((command i.1).prog i.2) tr w := by
  cases hc : command i.1 with
  | create e =>
    refine before_change hs hi (.insert i.2.text e.memeTemplate e.topCaption e.bottomCaption) rfl (fun y r hy => ?_)
      (fun C => by rw [hc]; rfl) fun {w₁ ms C r ms'} hw hkept hshows ha => ?_
    · rw [isBirth_call, Statement.bears, Bool.and_eq_true, decide_eq_true_eq, i.2.cStr_text] at hy
      exact (MemeId.text_injective hy.1).symm
    · have habsent : C i.2 = none := by
        by_contra hne
        exact hw.unborn hn (hkept.born hi₀ hne)
      obtain ⟨hdone, hshows'⟩ := hshows.insert habsent ha
      rw [hc]
      refine ⟨hdone, rfl, hshows', fun y hy => ?_⟩
      by_cases hyi : y = i.2
      · rw [hyi, isBirth_call, Statement.bears, i.2.cStr_text, hdone]
        exact .inr (by simp)
      · rw [Command.write, Function.update_of_ne hyi] at hy
        exact .inl hy
  | update y e =>
    refine before_change hs hi (.edit y.text e.memeTemplate e.topCaption e.bottomCaption) rfl (fun x r hx => ?_)
      (fun C => by rw [hc]; rfl) fun {w₁ ms C r ms'} _ _ hshows ha => ?_
    · cases (isBirth_call x _ r).symm.trans hx
    · obtain ⟨hdone, hshows'⟩ := hshows.edit ha
      rw [hc]
      refine ⟨hdone, rfl, hshows', fun z hz => .inl ?_⟩
      by_cases hzy : z = y
      · subst hzy
        rintro hnone
        rw [Command.write, Function.update_self, hnone] at hz
        exact hz rfl
      · rwa [Command.write, Function.update_of_ne hzy] at hz
  | delete y =>
    refine before_change hs hi (.remove y.text) rfl (fun x r hx => ?_) (fun C => by rw [hc]; rfl)
      fun {w₁ ms C r ms'} _ _ hshows ha => ?_
    · cases (isBirth_call x _ r).symm.trans hx
    · obtain ⟨hdone, hshows'⟩ := hshows.remove ha
      rw [hc]
      refine ⟨hdone, rfl, hshows', fun z hz => .inl ?_⟩
      by_cases hzy : z = y
      · subst hzy
        rw [Command.write, Function.update_self] at hz
        exact absurd rfl hz
      · rwa [Command.write, Function.update_of_ne hzy] at hz
  | view y => exact before_view hs hi hc
  | missing s hid =>
    refine before_collect hs hi (.find s) rfl (fun x r => isBirth_call x _ r) rfl (fun C => by rw [hc]; rfl)
      fun {ms C found} hshows hsub _ => ?_
    have hnil : found = [] := by
      refine List.eq_nil_iff_forall_not_mem.2 fun m hm => ?_
      obtain ⟨y, e, n, -, -, rfl⟩ := hshows.rows_found hsub m hm
      have hid' := of_decide_eq_true (List.mem_filter.1 (hsub.subset hm)).2
      rw [counted_id] at hid'
      cases hid.symm.trans (hid' ▸ y.valid)
    subst hnil
    rw [hc]
    exact ⟨.ok notFound, .inl rfl, fun _ _ => rfl⟩
  | list =>
    refine before_listed hs hi .all rfl (fun x r => isBirth_call x _ r) rfl (fun _ => true) (fun _ _ _ => rfl)
      (fun C => by rw [hc]; rfl) (fun C body h => ?_) fun C S body hS h => ?_
    · rw [hc]
      exact ⟨body, rfl, h⟩
    · rw [hc]
      exact ⟨S, body, hS, rfl, h⟩
  | search q =>
    refine before_listed hs hi (.search q) rfl (fun x r => isBirth_call x _ r) rfl (Texts.matching like q)
      (fun _ _ _ => rfl) (fun C => by rw [hc]; rfl) (fun C body h => ?_) fun C S body hS h => ?_
    · rw [hc]
      exact ⟨body, rfl, h⟩
    · rw [hc]
      exact ⟨S, body, hS, rfl, h⟩
  | settled answer => exact absurd hc (hset answer)

/-- A request that needs no table is settled by the call that comes before every command. -/
theorem before_settled (hs : Serves faults like engine) (hi : i ∈ w.inputs) {answer : Except StdException Response}
    (hc : command i.1 = .settled answer) {k : Reply → SqlProg Response} (hk : ∀ r, k r = .ofExcept answer) :
    Before faults like engine C₀ i (.call Statement.creating.call k) tr w := by
  refine before_effect hs hi .creating (fun y r hy => ?_) fun {w₁ ms C r ms'} _ _ hshows houtcome => ?_
  · cases hy
  · obtain rfl : ms' = ms := houtcome.elim id fun h => h.2.2.1
    refine ⟨answer, C, .inl ?_, hshows, fun _ hy => .inl hy, fun _ _ => ?_⟩
    · rw [hc]
      exact ⟨rfl, rfl⟩
    · rw [hk]
      cases answer with
      | ok resp => rfl
      | error e => rfl

theorem before_serve (hs : Serves faults like engine) (hi : i ∈ w.inputs) (hi₀ : C₀ i.2 = none) (hn : ¬ Born i.2 w.log) :
    Before faults like engine C₀ i (serve i.2.text i.1) tr w := by
  rw [serve_eq]
  refine before_idle hs .opening (fun _ _ => rfl) id fun {w₂ r} hw => ?_
  by_cases hset : ∃ answer, command i.1 = .settled answer
  · obtain ⟨answer, hc⟩ := hset
    refine before_settled hs (hw.inputs.subset hi) hc fun r => ?_
    rw [hc]
    rfl
  · refine before_idle hs .creating (fun _ _ => rfl) id fun {w₃ r'} hw' => ?_
    have hw := hw.trans hw'
    exact before_command hs (hw.inputs.subset hi) hi₀ (hw.unborn hn) (not_exists.1 hset)

end Outlines

/-! ## Every run -/

theorem steady_arrive (i j : Input) (w : MemeWorld) : Steady j w (w.arrive i) :=
  ⟨List.prefix_append _ _, List.prefix_rfl, id⟩

/-- Each request takes effect at one of its calls. -/
def memeInstants {faults : Prop} {like : Str → Str → Bool} {engine : Db → Call → Reply → Db → Prop}
    (hs : Serves faults like engine) {db : Db} {C₀ : Contents} (hdb : HoldsContents faults db C₀) :
    Instants (memesFrom engine C₀) db (memeObject faults like C₀) (HoldsContents faults) where
  inv := InStep faults C₀
  rely := Steady
  guar := Own
  init := ⟨hdb, fun h₀ h => absurd h₀ h, by rintro x ⟨c, hc, -⟩; cases hc⟩
  inv_rel := InStep.holds
  rely_refl := Steady.refl
  rely_trans _ := Steady.trans
  distinct_ne hne h := hne (congrArg Prod.snd h)
  guar_rely {i j w w₁} hne h := by
    refine ⟨h.inputs ▸ List.prefix_rfl, h.log, h.unborn j.2 ?_⟩
    rcases hne with hne | hne
    · exact hne.symm
    · exact hne
  arrive_inv {i w C} h := ⟨h.holds, h.born, fun hx => by
    rw [World.arrive_inputs, List.map_append]
    exact List.mem_append_left _ (h.drawn hx)⟩
  arrive_rely := steady_arrive
  start {i w C} hi₀ hdistinct hkept := by
    refine before_serve hs (by simp) hi₀ fun hb => ?_
    obtain ⟨j, hj, he⟩ := List.mem_map.1 (hkept.drawn hb)
    exact hdistinct j hj he.symm

/-- The requests are linearizable to the store of the memes' contents, on every
engine that does what SQLite documents and whatever memes they find: in any order
of their statements each acts at one instant, and is answered by what it met. -/
theorem memes_linearizable {like : Str → Str → Bool} {engine : Db → Call → Reply → Db → Prop} (hd : Documented like engine)
    {db : Db} {C₀ : Contents} (hdb : HoldsContents False db C₀) :
    Linearizable (memesFrom engine C₀) db (memeObject False like C₀) (HoldsContents False) :=
  (memeInstants (serves_documented hd) hdb).sound

def otherTexts : Texts := ⟨"simply.jpg", "B", "x", by unfold Caption; decide⟩

/-- The sample, and another meme that was viewed three times. -/
def twoMemes : List Record := [counted sampleId sampleTexts 0, counted secondId otherTexts 3]

def oneContents : Contents := Function.update (fun _ => none) sampleId (some sampleTexts)

def twoContents : Contents := Function.update oneContents secondId (some otherTexts)

theorem shows_one : Shows [counted sampleId sampleTexts 0] oneContents := Shows.nil.snoc rfl (by unfold IsInt; decide)

theorem holdsContents_two {faults : Prop} : HoldsContents faults (memeDb twoMemes) twoContents :=
  ⟨twoMemes, .inl rfl, shows_one.snoc (by decide) (by unfold IsInt; decide)⟩

theorem memes_linearizable_computes : Linearizable (memesFrom (computes like) twoContents) (memeDb twoMemes)
    (memeObject False like twoContents) (HoldsContents False) :=
  memes_linearizable (documented_computes _) holdsContents_two

/-- So they are on every engine whose calls can fail, where the table may not
even be there: a change that is answered with success acts at one instant, and
one that is answered with the failure never does. -/
theorem failures_linearizable {like : Str → Str → Bool} {engine : Db → Call → Reply → Db → Prop}
    (hi : Interruptible like engine) {db : Db} {C₀ : Contents} (hdb : HoldsContents True db C₀) :
    Linearizable (memesFrom engine C₀) db (memeObject True like C₀) (HoldsContents True) :=
  (memeInstants (serves_interruptible hi) hdb).sound

theorem failures_linearizable_faulty : Linearizable (memesFrom (faulty findFails like) twoContents) (memeDb twoMemes)
    (memeObject True like twoContents) (HoldsContents True) :=
  failures_linearizable (interruptible_faulty _ _) holdsContents_two

/-! ## Restarts -/

/-- The server runs on a database, is killed at any time, whatever its threads
are at, and is started again on what is left. -/
inductive Lives (faults : Prop) (engine : Db → Call → Reply → Db → Prop) (db : Db) :
    List (Pool Db Call Reply StdException Response Input) → Db → Prop
  | nil : Lives faults engine db [] db
  | snoc {ps db₁ C p} : Lives faults engine db ps db₁ → HoldsContents faults db₁ C →
      Reachable (memesFrom engine C) db₁ p → Lives faults engine db (ps ++ [p]) p.world.store

/-- Through any number of restarts and failing calls there is one serial history
of the contents, in which each request that was answered in some life stands in
that life's part, with its answer. -/
theorem restarts_serial {like : Str → Str → Bool} {engine : Db → Call → Reply → Db → Prop} (hi : Interruptible like engine)
    {db db' : Db} {C₀ : Contents} (hdb : HoldsContents True db C₀)
    {ps : List (Pool Db Call Reply StdException Response Input)} (h : Lives True engine db ps db') :
    ∃ (hs : List (History Input StdException Response)) (C : Contents), List.Forall₂ Tells ps hs ∧
      (memeObject True like C₀).Serial hs.flatten C ∧ HoldsContents True db' C := by
  induction h with
  | nil => exact ⟨[], C₀, .nil, .nil, hdb⟩
  | @snoc ps db₁ C₁ p _ hC₁ hp ih =>
    obtain ⟨hs, C, hlives, hserial, hC⟩ := ih
    cases hC.unique hC₁
    obtain ⟨h, hfit⟩ := (memeInstants (serves_interruptible hi) hC).sound.fitting hp
    obtain ⟨C', hserial', hC'⟩ := hfit.serial
    refine ⟨hs ++ [h], C', List.rel_append hlives (.cons hfit.toTells .nil), ?_, hC'⟩
    rw [List.flatten_append, List.flatten_singleton]
    exact hserial.append hserial'

/-- The requests that find these memes, on an engine where no view finds its meme. -/
def faultyReplay (C₀ : Contents) : Replay Db Call Reply StdException Response Input where
  start i := serve i.2.text i.1
  step := faultyEngine findFails like
  fresh i is := (C₀ i.2).isNone && is.all fun j => i.2 ≠ j.2
  considered _ _ _ _ := true

theorem faultyReplay_fits (C₀ : Contents) : (faultyReplay C₀).Fits (memesFrom (faulty findFails like) C₀) where
  start := rfl
  step _ _ := rfl
  fresh i is hf := by
    obtain ⟨h₀, hall⟩ := (Bool.and_eq_true _ _).mp hf
    refine ⟨Option.isNone_iff_eq_none.1 h₀, fun j hj => ?_⟩
    show i.2 ≠ j.2
    simpa using List.all_eq_true.1 hall j hj
  considered _ _ _ _ _ := trivial

/-- The codes of the answers, and none for a request that was cut off. -/
def codes (p : Pool Db Call Reply StdException Response Input) : List (Option Nat) :=
  p.threads.map fun t => match t.prog with
    | .ret r => some r.statusCode
    | _ => none

/-- A life in which a creation is answered and another is cut off, and one in which
a view is answered with an error and again a creation is cut off. -/
theorem restarts_serial_killed : ∃ (p p' : Pool Db Call Reply StdException Response Input) (hs : _) (C : Contents),
    codes p = [some 201, none] ∧ codes p' = [some 404, none] ∧ List.Forall₂ Tells [p, p'] hs ∧
    (memeObject True like fun _ => none).Serial hs.flatten C ∧ HoldsContents True p'.world.store C := by
  have h : ((faultyReplay fun _ => none).run [] [.arrive creation, .call 0, .arrive secondCreation, .call 1, .call 0, .call 0,
      .call 0]).any (fun p => codes p = [some 201, none] ∧ p.world.store = memeDb [counted sampleId sampleTexts 0]) = true := by
    decide +kernel
  have h' : ((faultyReplay oneContents).run (memeDb [counted sampleId sampleTexts 0]) [.arrive (viewing firstId), .call 0,
      .arrive secondCreation, .call 1, .call 0, .call 0]).any (fun p => codes p = [some 404, none]) = true := by
    decide +kernel
  obtain ⟨p, hp, hstate⟩ := (Option.any_eq_true _ _).1 h
  obtain ⟨hcodes, hstore⟩ := of_decide_eq_true hstate
  obtain ⟨p', hp', hcodes'⟩ := (Option.any_eq_true _ _).1 h'
  have hempty : HoldsContents True [] fun _ => none := ⟨[], .inr ⟨trivial, rfl, rfl⟩, .nil⟩
  have hone : HoldsContents True p.world.store oneContents := hstore ▸ ⟨_, .inl rfl, shows_one⟩
  obtain ⟨hs, C, h⟩ := restarts_serial (interruptible_faulty findFails like) hempty
    (.snoc (.snoc .nil hempty ((faultyReplay_fits _).reachable hp)) hone
      ((faultyReplay_fits _).reachable (hstore ▸ hp')))
  exact ⟨p, p', hs, C, hcodes, of_decide_eq_true hcodes', h⟩

end GittyUp.Meme
