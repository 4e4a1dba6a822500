import GittyUp.Meme.Refinement
/-!
# The store under concurrent requests

Every request runs in a thread of its own, and the statements of different
threads interleave. One proof outline covers all the requests: it keeps the
table that of a map, whatever relation between counters and the counter updates
in the log (`Counting`) the updates maintain.
-/
open Lib Lib.Sql GittyUp.Http GittyUp.SqlLib

namespace GittyUp.Meme

abbrev MemeWorld := World Db Call Reply Input

abbrev Trace := List (Call × Reply)

/-- Requests with a UUID each, served concurrently. -/
def memeSystem (engine : Db → Call → Reply → Db → Prop) (allowed : Trace → Call → MemeWorld → MemeWorld → Prop) :
    System Db Call Reply StdException Response Input where
  start i := serve i.2.text i.1
  admissible _ := True
  distinct i j := i.2 ≠ j.2
  sem := engine
  allowed := allowed

/-! ## What the log tells -/

/-- An update of the counter of `x`. -/
def isView (x : MemeId) (c : Call) : Bool :=
  match c with
  | .run sql b => sql = Statement.countSql && b.lookup 2 = some x.text
  | _ => false

/-- A successful insertion of `x`. -/
def isBirth (x : MemeId) (c : Call × Reply) : Bool :=
  match c.1 with
  | .run sql b => sql = Statement.insertSql && b.lookup 1 = some x.text && c.2.done
  | _ => false

def viewCount (x : MemeId) (log : Trace) : Nat := log.countP fun c => isView x c.1

def Born (x : MemeId) (log : Trace) : Prop := ∃ c ∈ log, isBirth x c = true

def Statement.counts (x : MemeId) : Statement → Bool
  | count id _ => cStr id = x.text
  | _ => false

def Statement.bears (x : MemeId) (r : Reply) : Statement → Bool
  | insert id _ _ _ => cStr id = x.text && r.done
  | _ => false

theorem isView_call (x : MemeId) (st : Statement) : isView x st.call = st.counts x := by
  have h : ∀ sql ∈ [Statement.insertSql, Statement.editSql, Statement.removeSql, Statement.findSql, Statement.allSql,
      Statement.searchSql], decide (sql = Statement.countSql) = false := by decide +kernel
  cases st with
  | opening | creating | closing => rfl
  | insert | edit | remove | find | all | search =>
    rw [Statement.call, isView, h _ (by simp)]
    rfl
  | count id v =>
    have : (bindTexts [v, id]).lookup 2 = some (cStr id) := rfl
    simp [Statement.call, isView, this, Statement.counts]

theorem isBirth_call (x : MemeId) (st : Statement) (r : Reply) : isBirth x (st.call, r) = st.bears x r := by
  have h : ∀ sql ∈ [Statement.editSql, Statement.countSql, Statement.removeSql, Statement.findSql, Statement.allSql,
      Statement.searchSql], decide (sql = Statement.insertSql) = false := by decide +kernel
  cases st with
  | opening | creating | closing => rfl
  | edit | count | remove | find | all | search =>
    simp only [Statement.call, isBirth]
    rw [h _ (by simp)]
    rfl
  | insert id t p b =>
    have : (bindTexts [id, t, p, b, "0"]).lookup 1 = some (cStr id) := rfl
    simp [Statement.call, isBirth, this, Statement.bears]

theorem viewCount_snoc (x : MemeId) (log : Trace) (c : Call × Reply) :
    viewCount x (log ++ [c]) = viewCount x log + if isView x c.1 then 1 else 0 := by
  rw [viewCount, List.countP_append, List.countP_singleton]
  rfl

theorem viewCount_mono (x : MemeId) {log log' : Trace} (h : log <+: log') : viewCount x log ≤ viewCount x log' :=
  h.sublist.countP_le

theorem born_snoc {x : MemeId} {log : Trace} {c : Call × Reply} :
    Born x (log ++ [c]) ↔ Born x log ∨ isBirth x c = true := by
  simp [Born, or_and_right, exists_or]

theorem Born.mono {x : MemeId} {log log' : Trace} (h : log <+: log') (hb : Born x log) : Born x log' := by
  obtain ⟨c, hc, hx⟩ := hb
  exact ⟨c, h.subset hc, hx⟩

/-! ## The outline -/

/-- A relation between a counter and the number of its updates so far that the updates maintain. -/
structure Counting (allowed : Trace → Call → MemeWorld → MemeWorld → Prop) where
  tracks : Nat → Nat → Prop
  zero : tracks 0 0
  le : ∀ {n N}, tracks n N → n ≤ N
  /-- A thread that has read `a` may write its successor. -/
  step : ∀ {tr x a r db' w ms M} {c : Call × Reply}, c ∈ tr → c.2.rows = [(record x a).row] → a.views < 2 ^ 31 →
    a.views ≤ viewCount x w.log → w.store = memeDb ms → Represents ms M →
    (∀ b, M x = some b → tracks b.views (viewCount x w.log)) →
    allowed tr (Statement.count x.text (decInt (succInt a.views))).call w
      (w.after (Statement.count x.text (decInt (succInt a.views))).call r db') →
    a.views < 2 ^ 31 - 1 ∧ ∀ b, M x = some b → tracks (a.views + 1) (viewCount x w.log + 1)

/-- The invariant: the table is that of a map of valid memes, whose counters
track the updates and whose ids were drawn. -/
structure Inv (tracks : Nat → Nat → Prop) (w : MemeWorld) (ms : List Record) (M : Memes) : Prop where
  store : w.store = memeDb ms
  represents : Represents ms M
  small : ∀ {x a}, M x = some a → a.views < 2 ^ 31
  tracks : ∀ {x a}, M x = some a → tracks a.views (viewCount x w.log)
  born : ∀ {x a}, M x = some a → Born x w.log
  unborn : ∀ {x}, ¬ Born x w.log → viewCount x w.log = 0
  drawn : ∀ {x}, Born x w.log → x ∈ w.inputs.map Prod.snd

/-- What a thread relies on: nobody else inserts its id. -/
structure Steady (i : Input) (w w' : MemeWorld) : Prop where
  inputs : w.inputs <+: w'.inputs
  log : w.log <+: w'.log
  unborn : ¬ Born i.2 w.log → ¬ Born i.2 w'.log

/-- What a thread guarantees: it inserts no other id. -/
structure Own (i : Input) (w w' : MemeWorld) : Prop where
  inputs : w'.inputs = w.inputs
  log : w.log <+: w'.log
  unborn : ∀ x, x ≠ i.2 → ¬ Born x w.log → ¬ Born x w'.log

/-- The meme that a request is a view of. -/
def viewOf (req : Request) : Option MemeId :=
  match command req with
  | .view x => some x
  | _ => none

theorem viewOf_eq_some {req : Request} {x : MemeId} : viewOf req = some x ↔ command req = .view x := by
  unfold viewOf
  split
  · simp_all
  · simp_all

def isOk (out : Except StdException Response) : Bool :=
  match out with
  | .ok resp => resp.statusCode = 200
  | .error _ => false

/-- How a thread ends: it throws only what the decoding of its request throws,
finds no corrupted meme, and has updated the counter of the meme it shows, once. -/
structure Ends (i : Input) (out : Except StdException Response) (tr : Trace) : Prop where
  thrown : ∀ e, out = .error e → e = decodeFailure
  intact : out ≠ .ok corrupted
  counted : ∀ x, viewCount x tr = if viewOf i.1 = some x ∧ isOk out = true then 1 else 0

theorem Steady.refl (i : Input) (w : MemeWorld) : Steady i w w := ⟨List.prefix_rfl, List.prefix_rfl, id⟩

theorem Steady.trans {i : Input} {w w₁ w₂ : MemeWorld} (h : Steady i w w₁) (h' : Steady i w₁ w₂) : Steady i w w₂ :=
  ⟨h.inputs.trans h'.inputs, h.log.trans h'.log, fun hn => h'.unborn (h.unborn hn)⟩

/-! ## Keeping the invariant -/

section Keeping
variable {T : Nat → Nat → Prop} {w : MemeWorld} {ms ms' : List Record} {M M' : Memes} {c : Call × Reply}

theorem viewCount_quiet (hview : ∀ x, isView x c.1 = false) (x : MemeId) (log : Trace) :
    viewCount x (log ++ [c]) = viewCount x log := by
  rw [viewCount_snoc, hview]
  rfl

theorem Inv.after (h : Inv T w ms M) (hr : Represents ms' M')
    (hM : ∀ {x a}, M' x = some a → a.views < 2 ^ 31 ∧ T a.views (viewCount x (w.log ++ [c])) ∧ Born x (w.log ++ [c]))
    (hview : ∀ x, isView x c.1 = true → Born x w.log) (hbirth : ∀ x, isBirth x c = true → x ∈ w.inputs.map Prod.snd) :
    Inv T (w.after c.1 c.2 (memeDb ms')) ms' M' where
  store := rfl
  represents := hr
  small hx := (hM hx).1
  tracks hx := (hM hx).2.1
  born hx := (hM hx).2.2
  unborn {x} hx := by
    rw [World.after_log, born_snoc, not_or] at hx
    have hnot : isView x c.1 = false := by
      rw [Bool.eq_false_iff]
      exact fun he => hx.1 (hview x he)
    rw [World.after_log, viewCount_snoc, h.unborn hx.1, hnot]
    rfl
  drawn {x} hx := by
    rcases born_snoc.1 hx with hx | hx
    · exact h.drawn hx
    · exact hbirth x hx

/-- A statement that neither counts nor inserts. -/
theorem Inv.quiet (h : Inv T w ms M) (hview : ∀ x, isView x c.1 = false) (hbirth : ∀ x, isBirth x c = false)
    (hr : Represents ms' M') (hviews : ∀ {x a}, M' x = some a → ∃ b, M x = some b ∧ b.views = a.views) :
    Inv T (w.after c.1 c.2 (memeDb ms')) ms' M' := by
  refine h.after hr (fun {x a} hx => ?_) (fun x hx => ?_) fun x hx => ?_
  · obtain ⟨b, hb, he⟩ := hviews hx
    rw [viewCount_quiet hview, ← he]
    exact ⟨h.small hb, h.tracks hb, born_snoc.2 (.inl (h.born hb))⟩
  · cases (hview x).symm.trans hx
  · cases (hbirth x).symm.trans hx

/-- The insertion of a meme that was not born. -/
theorem Inv.insert (h : Inv T w ms M) (hT : T 0 0) {i : Input} (hi : i ∈ w.inputs) (hn : ¬ Born i.2 w.log) {e : Texts}
    (hview : ∀ x, isView x c.1 = false) (hbirth : ∀ x, isBirth x c = true ↔ i.2 = x)
    (hr : Represents ms' (M.create i.2 e)) : Inv T (w.after c.1 c.2 (memeDb ms')) ms' (M.create i.2 e) := by
  refine h.after hr (fun {x a} hx => ?_) (fun x hx => ?_) fun x hx => ?_
  · rw [viewCount_quiet hview]
    by_cases hxi : x = i.2
    · subst hxi
      rw [Memes.create, Function.update_self] at hx
      cases hx
      rw [h.unborn hn]
      exact ⟨Nat.two_pow_pos 31, hT, born_snoc.2 (.inr ((hbirth _).2 rfl))⟩
    · have hx : M x = some a := (Function.update_of_ne hxi _ _).symm.trans hx
      exact ⟨h.small hx, h.tracks hx, born_snoc.2 (.inl (h.born hx))⟩
  · cases (hview x).symm.trans hx
  · rw [← (hbirth x).1 hx]
    exact List.mem_map_of_mem hi

/-- The update of a counter. -/
theorem Inv.count (h : Inv T w ms M) {x : MemeId} {n : Nat} (hn : n < 2 ^ 31) (hx : Born x w.log)
    (hT : ∀ b, M x = some b → T n (viewCount x w.log + 1)) (hview : ∀ y, isView y c.1 = true ↔ x = y)
    (hbirth : ∀ y, isBirth y c = false) (hr : Represents ms' (M.count x n)) :
    Inv T (w.after c.1 c.2 (memeDb ms')) ms' (M.count x n) := by
  refine h.after hr (fun {y a} hy => ?_) (fun y hy => ?_) fun y hy => ?_
  · rw [Memes.count, Memes.modify] at hy
    by_cases hyx : y = x
    · subst hyx
      rw [Function.update_self] at hy
      obtain ⟨b, hb, rfl⟩ := Option.map_eq_some_iff.1 hy
      rw [viewCount_snoc, (hview y).2 rfl]
      exact ⟨hn, hT b hb, born_snoc.2 (.inl hx)⟩
    · rw [Function.update_of_ne hyx] at hy
      have hnot : isView y c.1 = false := by
        rw [Bool.eq_false_iff]
        exact fun he => hyx ((hview y).1 he).symm
      rw [viewCount_snoc, hnot]
      exact ⟨h.small hy, h.tracks hy, born_snoc.2 (.inl (h.born hy))⟩
  · rw [← (hview y).1 hy]
    exact hx
  · cases (hbirth y).symm.trans hy

theorem Own.quiet {i : Input} (hbirth : ∀ x, isBirth x c = true → x = i.2) (db : Db) : Own i w (w.after c.1 c.2 db) where
  inputs := rfl
  log := List.prefix_append _ _
  unborn x hx hn hb := by
    rcases born_snoc.1 hb with hb | hb
    · exact hn hb
    · exact hx (hbirth x hb)

theorem Steady.quiet {i : Input} (hbirth : ∀ x, isBirth x c = false) (db : Db) : Steady i w (w.after c.1 c.2 db) where
  inputs := List.prefix_rfl
  log := List.prefix_append _ _
  unborn hn hb := by
    rcases born_snoc.1 hb with hb | hb
    · exact hn hb
    · cases (hbirth _).symm.trans hb

end Keeping

/-! ## Outlines of the handler's programs -/

section Outlines
variable {like : Str → Str → Bool} {engine : Db → Call → Reply → Db → Prop}
  {allowed : Trace → Call → MemeWorld → MemeWorld → Prop} {T : Nat → Nat → Prop} {i : Input} {tr : Trace} {w : MemeWorld}

def Outline (engine : Db → Call → Reply → Db → Prop) (allowed : Trace → Call → MemeWorld → MemeWorld → Prop)
    (T : Nat → Nat → Prop) (i : Input) (p : SqlProg Response) (tr : Trace) (w : MemeWorld) : Prop :=
  Holds (memeSystem engine allowed) (fun w => ∃ ms M, Inv T w ms M) (Steady i) (Own i) (fun out tr _ => Ends i out tr)
    p tr w

/-- A statement, by what it does to the table. -/
theorem outline_statement (hd : Documented like engine) (st : Statement) {k : Reply → SqlProg Response}
    (h : ∀ {w₁ ms M r ms'}, Steady i w w₁ → Inv T w₁ ms M → st.Acts like ms r ms' →
      allowed tr st.call w₁ (w₁.after st.call r (memeDb ms')) →
        (∃ M', Inv T (w₁.after st.call r (memeDb ms')) ms' M') ∧ Own i w₁ (w₁.after st.call r (memeDb ms')) ∧
          Outline engine allowed T i (k r) (tr ++ [(st.call, r)]) (w₁.after st.call r (memeDb ms'))) :
    Outline engine allowed T i (.call st.call k) tr w := by
  rintro w₁ hw ⟨ms, M, hi⟩ r db' hs ha
  have hs : engine (memeDb ms) st.call r db' := hi.store ▸ hs
  obtain ⟨ms', rfl, hacts⟩ := Statement.acts hd st hs
  obtain ⟨⟨M', h1⟩, h2, h3⟩ := h hw hi hacts ha
  exact ⟨⟨ms', M', h1⟩, h2, h3⟩

/-- A statement that neither counts nor inserts. -/
theorem outline_quiet (hd : Documented like engine) (st : Statement) {k : Reply → SqlProg Response}
    (hview : ∀ x, isView x st.call = false) (hbirth : ∀ x r, isBirth x (st.call, r) = false)
    (hacts : ∀ {ms M r ms'}, Represents ms M → st.Acts like ms r ms' →
      ∃ M' : Memes, Represents ms' M' ∧ ∀ {x a}, M' x = some a → ∃ b, M x = some b ∧ b.views = a.views)
    (h : ∀ {w₁ w₂ ms M r ms'}, Steady i w w₁ → Inv T w₁ ms M → st.Acts like ms r ms' → Steady i w₁ w₂ →
      Outline engine allowed T i (k r) (tr ++ [(st.call, r)]) w₂) :
    Outline engine allowed T i (.call st.call k) tr w := by
  refine outline_statement hd st fun {w₁ ms M r ms'} hw hi ha _ => ?_
  obtain ⟨M', hr, hviews⟩ := hacts hi.represents ha
  refine ⟨⟨M', hi.quiet (c := (st.call, r)) hview (fun x => hbirth x r) hr hviews⟩, ?_, ?_⟩
  · refine Own.quiet (c := (st.call, r)) (fun x hx => ?_) _
    cases (hbirth x r).symm.trans hx
  · exact h hw hi ha (Steady.quiet (c := (st.call, r)) (fun x => hbirth x r) _)

/-- A statement that leaves the table as it is. -/
theorem outline_idle (hd : Documented like engine) (st : Statement) {k : Reply → SqlProg Response}
    (hview : ∀ x, isView x st.call = false) (hbirth : ∀ x r, isBirth x (st.call, r) = false)
    (hacts : ∀ {ms r ms'}, st.Acts like ms r ms' → ms' = ms)
    (h : ∀ {w₁ w₂ ms M r}, Steady i w w₁ → Inv T w₁ ms M → st.Acts like ms r ms → Steady i w₁ w₂ →
      Outline engine allowed T i (k r) (tr ++ [(st.call, r)]) w₂) :
    Outline engine allowed T i (.call st.call k) tr w := by
  refine outline_quiet hd st hview hbirth (fun {ms M r ms'} hr ha => ⟨M, hacts ha ▸ hr, fun {x a} hx => ⟨a, hx, rfl⟩⟩) ?_
  intro w₁ w₂ ms M r ms' hw hi ha hw'
  exact h hw hi (hacts ha ▸ ha) hw'

/-- The last call of a thread, and its answer. -/
theorem outline_answer (hd : Documented like engine) {resp : Response} (he : Ends i (.ok resp) tr) :
    Outline engine allowed T i (.call Statement.closing.call fun _ => .ret resp) tr w := by
  refine outline_idle hd .closing (fun _ => rfl) (fun _ _ => rfl) id fun {_ _ _ _ r} _ _ _ _ => ?_
  refine ⟨he.thrown, he.intact, fun x => ?_⟩
  rw [viewCount_quiet (c := (Statement.closing.call, r)) fun _ => rfl]
  exact he.counted x

/-- A query and the call that closes it. -/
theorem outline_collect (hd : Documented like engine) (st : Statement) {sql : Str} {values : List Str}
    (hst : st.call = .run sql (bindTexts values)) {k : List Row → SqlProg Response} (keep : Record → Bool)
    (hview : ∀ x, isView x st.call = false) (hbirth : ∀ x r, isBirth x (st.call, r) = false)
    (hfinds : ∀ {ms r ms'}, st.Acts like ms r ms' → Statement.Finds keep ms r ms')
    (h : ∀ {w₁ w₂ ms M r r'}, Steady i w w₁ → Inv T w₁ ms M → Statement.Finds keep ms r ms → Steady i w₁ w₂ →
      Outline engine allowed T i (k (r.rows.map (·.map cStr)))
        (tr ++ [(st.call, r)] ++ [(Statement.closing.call, r')]) w₂) :
    Outline engine allowed T i (collect sql values >>= k) tr w := by
  rw [collect_bind, ← hst]
  refine outline_idle hd st hview hbirth (fun ha => (hfinds ha).2.2) fun {w₁ w₂ ms M r} hw hi ha hw' => ?_
  have hf := hfinds ha
  rw [if_pos hf.2.1]
  refine outline_idle hd .closing (fun _ => rfl) (fun _ _ => rfl) id fun hw₁ _ _ hw₂ => ?_
  exact h hw hi hf (hw'.trans (hw₁.trans hw₂))

theorem respond_intact {code : Nat} {contentType body : Str} (h : code ≠ 400) :
    respond code contentType body ≠ corrupted :=
  fun he => h (congrArg Response.statusCode he)

theorem ends_view_free {resp : Response} (hview : viewOf i.1 = none ∨ resp.statusCode ≠ 200) (hne : resp ≠ corrupted)
    (htr : ∀ x, viewCount x tr = 0) : Ends i (.ok resp) tr where
  thrown e he := by cases he
  intact he := hne (Except.ok.inj he)
  counted x := by
    rw [htr, if_neg]
    rintro ⟨h1, h2⟩
    rcases hview with hview | hview
    · cases hview.symm.trans h1
    · exact hview (of_decide_eq_true h2)

theorem outline_create (hd : Documented like engine) (hT : T 0 0) (hi : i ∈ w.inputs) (hn : ¬ Born i.2 w.log)
    (hview : viewOf i.1 = none) (htr : ∀ x, viewCount x tr = 0) (e : Texts) :
    Outline engine allowed T i ((Command.create e).prog i.2) tr w := by
  rw [Command.prog, change_bind]
  refine outline_statement hd (.insert i.2.text e.memeTemplate e.topCaption e.bottomCaption)
    fun {w₁ ms M r ms'} hw hinv ha _ => ?_
  have hn₁ := hw.unborn hn
  have habsent : M i.2 = none := by
    rw [Option.eq_none_iff_forall_ne_some]
    exact fun a ha => hn₁ (hinv.born ha)
  obtain ⟨hdone, hr⟩ := hinv.represents.insert habsent ha
  have hquiet : ∀ x, isView x (Statement.insert i.2.text e.memeTemplate e.topCaption e.bottomCaption).call = false :=
    fun x => isView_call x _
  have hbirth : ∀ x, isBirth x ((Statement.insert i.2.text e.memeTemplate e.topCaption e.bottomCaption).call, r) = true ↔
      i.2 = x := by
    intro x
    rw [isBirth_call, Statement.bears, hdone, i.2.cStr_text, Bool.and_true, decide_eq_true_eq, MemeId.text_injective.eq_iff]
  refine ⟨⟨_, hinv.insert hT (hw.inputs.subset hi) hn₁ hquiet hbirth hr⟩, ?_, ?_⟩
  · exact Own.quiet (c := (_, r)) (fun x hx => ((hbirth x).1 hx).symm) _
  · rw [if_pos hdone]
    refine outline_answer hd (ends_view_free (.inl hview) (respond_intact (by decide)) fun x => ?_)
    rw [viewCount_quiet hquiet, htr]

theorem outline_update (hd : Documented like engine) (hview : viewOf i.1 = none) (htr : ∀ x, viewCount x tr = 0)
    (y : MemeId) (e : Texts) : Outline engine allowed T i ((Command.update y e).prog i.2) tr w := by
  rw [Command.prog, change_bind]
  have hquiet : ∀ x, isView x (Statement.edit y.text e.memeTemplate e.topCaption e.bottomCaption).call = false :=
    fun x => isView_call x _
  refine outline_quiet hd (.edit y.text e.memeTemplate e.topCaption e.bottomCaption) hquiet
    (fun x r => isBirth_call x _ r) (fun {ms M r ms'} hr ha => ?_) fun {w₁ w₂ ms M r ms'} _ hinv ha _ => ?_
  · refine ⟨_, (hr.edit ha).2, fun hx => ?_⟩
    obtain ⟨b, hb, rfl | rfl⟩ := Memes.modify_some hx
    · exact ⟨_, hb, rfl⟩
    · exact ⟨_, hb, rfl⟩
  · rw [if_pos (hinv.represents.edit ha).1]
    refine outline_answer hd (ends_view_free (.inl hview) (respond_intact (by decide)) fun x => ?_)
    rw [viewCount_quiet hquiet, htr]

theorem outline_delete (hd : Documented like engine) (hview : viewOf i.1 = none) (htr : ∀ x, viewCount x tr = 0)
    (y : MemeId) : Outline engine allowed T i ((Command.delete y).prog i.2) tr w := by
  rw [Command.prog, change_bind]
  have hquiet : ∀ x, isView x (Statement.remove y.text).call = false := fun x => isView_call x _
  refine outline_quiet hd (.remove y.text) hquiet (fun x r => isBirth_call x _ r) (fun {ms M r ms'} hr ha => ?_)
    fun {w₁ w₂ ms M r ms'} _ hinv ha _ => ?_
  · exact ⟨_, (hr.remove ha).2, fun hx => ⟨_, Memes.remove_some hx, rfl⟩⟩
  · rw [if_pos (hinv.represents.remove ha).1]
    refine outline_answer hd (ends_view_free (.inl hview) (respond_intact (by decide)) fun x => ?_)
    rw [viewCount_quiet hquiet, htr]

theorem outline_listed (hview : viewOf i.1 = none) (htr : ∀ x, viewCount x tr = 0) {ms : List Record} {M : Memes}
    {w₁ : MemeWorld} (hinv : Inv T w₁ ms M) {keep : Record → Bool} {r : Reply} (hf : Statement.Finds keep ms r ms) :
    Outline engine allowed T i (answerList (r.rows.map (·.map cStr))) tr w := by
  obtain ⟨found, hrows, -, hfound⟩ := hinv.represents.finds (fun _ _ hx => hinv.small hx) hf
  obtain ⟨body, hbody, -⟩ := answerList_ok hfound
  rw [hrows, hbody]
  exact ends_view_free (.inl hview) (respond_intact (by decide)) htr

/-- A view: between the query and the update the counter may have moved on. -/
theorem outline_view (hd : Documented like engine) (c : Counting allowed) (htr : ∀ x, viewCount x tr = 0) {y : MemeId}
    (hview : viewOf i.1 = some y) : Outline engine allowed c.tracks i (getMemeById y.text) tr w := by
  refine outline_collect hd (.find y.text) rfl (fun m => m.id = y.text) (fun x => isView_call x _)
    (fun x r => isBirth_call x _ r) (fun ha => by rwa [Statement.Acts, y.cStr_text] at ha)
    fun {w₁ w₂ ms M r r'} _ hinv hf hw₂ => ?_
  have hrows := hinv.represents.find hf
  have htr' : ∀ x, viewCount x (tr ++ [((Statement.find y.text).call, r)] ++ [(Statement.closing.call, r')]) = 0 := by
    intro x
    rw [viewCount_snoc, viewCount_snoc, htr, isView_call, isView_call]
    rfl
  cases hy : M y with
  | none =>
    rw [hrows, hy]
    exact ends_view_free (.inr (by decide)) (respond_intact (by decide)) htr'
  | some a =>
    rw [hrows, hy, Option.map_some, Option.toList_some, List.map_singleton, cStr_row, viewRows_record y (hinv.small hy),
      change_bind]
    refine outline_statement hd (.count y.text (decInt (succInt a.views))) fun {w₃ ms' M' r₃ ms''} hw₃ hinv' ha hal => ?_
    -- what was known of the counter when it was read
    have hle : a.views ≤ viewCount y w₃.log :=
      (c.le (hinv.tracks hy)).trans (viewCount_mono y (hw₂.log.trans hw₃.log))
    have hborn : Born y w₃.log := (hinv.born hy).mono (hw₂.log.trans hw₃.log)
    obtain ⟨hsmall, htracks⟩ := c.step (c := ((Statement.find y.text).call, r)) (by simp)
      (by rw [hrows, hy]; rfl) (hinv.small hy) hle hinv'.store hinv'.represents (fun b hb => hinv'.tracks hb) hal
    rw [decInt_succInt hsmall] at ha ⊢
    obtain ⟨hdone, hr⟩ := hinv'.represents.count ha
    have hview' : ∀ x, isView x (Statement.count y.text (dec (a.views + 1))).call = true ↔ y = x := by
      intro x
      rw [isView_call, Statement.counts, y.cStr_text, decide_eq_true_eq, MemeId.text_injective.eq_iff]
    have hbirth : ∀ x, isBirth x ((Statement.count y.text (dec (a.views + 1))).call, r₃) = false :=
      fun x => isBirth_call x _ r₃
    refine ⟨⟨_, hinv'.count (c := (_, r₃)) (by omega) hborn htracks hview' hbirth hr⟩, ?_, ?_⟩
    · refine Own.quiet (c := (_, r₃)) (fun x hx => ?_) _
      cases (hbirth x).symm.trans hx
    · rw [if_pos hdone]
      refine outline_answer hd ⟨fun _ he => (by cases he), fun he => ?_, fun x => ?_⟩
      · exact absurd (Except.ok.inj he) (respond_intact (by decide))
      · rw [viewCount_snoc, htr', hview]
        by_cases hx : y = x
        · subst hx
          rw [(hview' y).2 rfl]
          simp [isOk, shown, respond]
        · rw [Bool.eq_false_iff.2 fun he => hx ((hview' x).1 he)]
          simp [hx]

/-- Every command keeps the invariant, and ends as it should. -/
theorem outline_command (hd : Documented like engine) (c : Counting allowed) (hi : i ∈ w.inputs)
    (hn : ¬ Born i.2 w.log) (htr : ∀ x, viewCount x tr = 0) :
    Outline engine allowed c.tracks i ((command i.1).prog i.2) tr w := by
  have hfree : (∀ x, command i.1 ≠ .view x) → viewOf i.1 = none := by
    intro h
    rw [Option.eq_none_iff_forall_ne_some]
    exact fun x hx => h x (viewOf_eq_some.1 hx)
  cases hc : command i.1 with
  | create e => exact outline_create hd c.zero hi hn (hfree (by simp [hc])) htr e
  | update y e => exact outline_update hd (hfree (by simp [hc])) htr y e
  | delete y => exact outline_delete hd (hfree (by simp [hc])) htr y
  | view y => exact outline_view hd c htr (viewOf_eq_some.2 hc)
  | missing s hs =>
    refine outline_collect hd (.find s) rfl _ (fun x => isView_call x _) (fun x r => isBirth_call x _ r) id
      fun {w₁ w₂ ms M r r'} _ hinv hf _ => ?_
    rw [hinv.represents.find_none hs hf]
    refine ends_view_free (.inr (by decide)) (respond_intact (by decide)) fun x => ?_
    rw [viewCount_snoc, viewCount_snoc, htr, isView_call, isView_call]
    rfl
  | list =>
    refine outline_collect hd .all rfl _ (fun x => isView_call x _) (fun x r => isBirth_call x _ r) id
      fun {w₁ w₂ ms M r r'} _ hinv hf _ => ?_
    refine outline_listed (hfree (by simp [hc])) (fun x => ?_) hinv hf
    rw [viewCount_snoc, viewCount_snoc, htr, isView_call, isView_call]
    rfl
  | search q =>
    refine outline_collect hd (.search q) rfl _ (fun x => isView_call x _) (fun x r => isBirth_call x _ r) id
      fun {w₁ w₂ ms M r r'} _ hinv hf _ => ?_
    refine outline_listed (hfree (by simp [hc])) (fun x => ?_) hinv hf
    rw [viewCount_snoc, viewCount_snoc, htr, isView_call, isView_call]
    rfl
  | settled answer =>
    have hview := hfree (by simp [hc])
    obtain rfl | ⟨resp, rfl, -, hne⟩ := command_settles hc
    · refine ⟨fun _ he => (Except.error.inj he).symm, fun he => (by cases he), fun x => ?_⟩
      rw [htr, hview]
      rfl
    · exact ends_view_free (.inl hview) (fun he => hne (congrArg Response.responseBody he)) htr

end Outlines

/-! ## Reachable pools -/

/-- The outline of all the requests. -/
def storeContract {like : Str → Str → Bool} {engine : Db → Call → Reply → Db → Prop}
    {allowed : Trace → Call → MemeWorld → MemeWorld → Prop} (hd : Documented like engine) (c : Counting allowed) :
    Contract (memeSystem engine allowed) where
  inv w := ∃ ms M, Inv c.tracks w ms M
  rely := Steady
  guar := Own
  post i out tr _ := Ends i out tr
  rely_refl := Steady.refl
  rely_trans _ := Steady.trans
  post_stable := by
    rintro i x tr w w₁ - h
    exact h
  guar_rely {i j w w₁} hne h := by
    refine ⟨h.inputs ▸ List.prefix_rfl, h.log, h.unborn j.2 ?_⟩
    rcases hne with hne | hne
    · exact hne.symm
    · exact hne
  arrive_inv := by
    rintro i w - - ⟨ms, M, h⟩
    refine ⟨ms, M, ⟨h.store, h.represents, h.small, h.tracks, h.born, h.unborn, fun hb => ?_⟩⟩
    rw [World.arrive_inputs, List.map_append]
    exact List.mem_append_left _ (h.drawn hb)
  arrive_rely i j w := ⟨List.prefix_append _ _, List.prefix_rfl, id⟩
  start := by
    rintro i w - hdistinct ⟨ms, M, h⟩
    have hn : ¬ Born i.2 w.log := by
      intro hb
      obtain ⟨j, hj, he⟩ := List.mem_map.1 (h.drawn hb)
      exact hdistinct j hj he.symm
    have hi : i ∈ (w.arrive i).inputs := by simp
    show Outline engine allowed c.tracks i (serve i.2.text i.1) [] (w.arrive i)
    rw [serve_eq]
    refine outline_idle hd .opening (fun _ => rfl) (fun _ _ => rfl) id fun {w₁ w₂ _ _ r} hw₁ _ _ hw₂ => ?_
    refine outline_idle hd .creating (fun _ => rfl) (fun _ _ => rfl) id fun {w₃ w₄ _ _ r'} hw₃ _ _ hw₄ => ?_
    have hw : Steady i (w.arrive i) w₄ := (hw₁.trans hw₂).trans (hw₃.trans hw₄)
    exact outline_command hd c (hw.inputs.subset hi) (hw.unborn hn) fun _ => rfl

/-- Every run keeps the invariant, and every thread ends as it should. -/
theorem reachable_inv {like : Str → Str → Bool} {engine : Db → Call → Reply → Db → Prop}
    {allowed : Trace → Call → MemeWorld → MemeWorld → Prop} (hd : Documented like engine) (c : Counting allowed)
    {p : Pool Db Call Reply StdException Response Input} (h : Reachable (memeSystem engine allowed) (memeDb []) p) :
    (∃ ms M, Inv c.tracks p.world ms M) ∧ ∀ t ∈ p.threads,
      (∀ resp, t.prog = .ret resp → Ends t.input (.ok resp) t.trace) ∧
      ∀ e, t.prog = .throw e → Ends t.input (.error e) t.trace := by
  have h₀ : Inv c.tracks (⟨[], memeDb [], []⟩ : MemeWorld) [] (fun _ => none) :=
    ⟨rfl, .nil, nofun, nofun, nofun, fun _ => rfl, fun ⟨_, hc, _⟩ => absurd hc List.not_mem_nil⟩
  obtain ⟨hinv, hthreads⟩ := (storeContract hd c).sound ⟨[], _, h₀⟩ h
  refine ⟨hinv, fun t ht => ⟨fun resp hp => ?_, fun e hp => ?_⟩⟩
  · have := hthreads t ht
    rwa [hp] at this
  · have := hthreads t ht
    rwa [hp] at this

/-! ## The invariant of the table -/

/-- Any order of the statements. -/
def anyOrder : Trace → Call → MemeWorld → MemeWorld → Prop := fun _ _ _ _ => True

def FewViews (w : MemeWorld) : Prop := ∀ x, viewCount x w.log < 2 ^ 31 - 1

/-- Races can lose views, so that a counter is at most the number of its updates. -/
def atMost : Counting (fun tr op w w' => anyOrder tr op w w' ∧ FewViews w') where
  tracks n N := n ≤ N
  zero := le_rfl
  le := id
  step {tr x a r db' w ms M c} _ _ _ hle _ _ _ hal := by
    have hcount : isView x (Statement.count x.text (decInt (succInt a.views))).call = true := by
      rw [isView_call, Statement.counts, x.cStr_text]
      exact decide_eq_true rfl
    have hlt := hal.2 x
    rw [World.after_log, viewCount_snoc, hcount, if_pos rfl] at hlt
    exact ⟨by omega, fun _ _ => by omega⟩

/-- A field that the encoder of the lists and the pages can handle. -/
def CleanText (v : Str) : Prop := v ≠ [] ∧ ∀ c ∈ v, isCaption c ∧ c ≠ ':' ∧ c ≠ '"' ∧ c ≠ '\\' ∧ 32 ≤ c

structure Record.Valid (m : Record) : Prop where
  id : checkId m.id = true
  texts : ∀ v ∈ [m.memeTemplate, m.topCaption, m.bottomCaption], CleanText v
  timesViewed : ∃ n : Nat, m.timesViewed = dec n ∧ stoi m.timesViewed = .ok (n : Int)

theorem cleanText_of_caption {v : Str} (h : Caption v) : CleanText v := by
  have hall : ∀ c : Byte, isCaption c = true → c ≠ ':' ∧ c ≠ '"' ∧ c ≠ '\\' ∧ 32 ≤ c := forall_byte (by decide +kernel)
  exact ⟨h.1, fun c hc => ⟨h.2 c hc, hall c (h.2 c hc)⟩⟩

theorem record_valid (x : MemeId) {a : Entry} (ha : a.views < 2 ^ 31) : (record x a).Valid where
  id := x.valid
  texts v hv := by
    obtain ⟨ht, hp, hb⟩ := a.valid
    simp only [record, List.mem_cons, List.not_mem_nil, or_false] at hv
    rcases hv with rfl | rfl | rfl
    · exact cleanText_of_caption ht
    · exact cleanText_of_caption hp
    · exact cleanText_of_caption hb
  timesViewed := ⟨a.views, rfl, stoi_dec ha⟩

theorem FewViews.of_append {w : MemeWorld} {c : Call × Reply} {db : Db} (h : FewViews (w.after c.1 c.2 db)) :
    FewViews w := by
  intro x
  have := h x
  rw [World.after_log, viewCount_snoc] at this
  omega

/-- The run into a pool with few views had few views all along. -/
theorem reachable_few {engine : Db → Call → Reply → Db → Prop} {p : Pool Db Call Reply StdException Response Input}
    (h : Reachable (memeSystem engine anyOrder) (memeDb []) p) (hviews : FewViews p.world) :
    Reachable (memeSystem engine fun tr op w w' => anyOrder tr op w w' ∧ FewViews w') (memeDb []) p :=
  h.restrict (B := FewViews) (fun _ op r _ h => h.of_append (c := (op, r))) (fun _ _ h => h) hviews

theorem reachable_valid {like : Str → Str → Bool} {engine : Db → Call → Reply → Db → Prop} (hd : Documented like engine)
    {p : Pool Db Call Reply StdException Response Input} (h : Reachable (memeSystem engine anyOrder) (memeDb []) p)
    (hviews : FewViews p.world) :
    ∃ ms, p.world.store = memeDb ms ∧ (ms.map Record.id).Nodup ∧ ∀ m ∈ ms, m.Valid := by
  obtain ⟨⟨ms, M, hinv⟩, -⟩ := reachable_inv hd atMost (reachable_few h hviews)
  refine ⟨ms, hinv.store, hinv.represents.nodup, fun m hm => ?_⟩
  obtain ⟨x, a, hx, rfl⟩ := (hinv.represents.mem_iff m).1 hm
  exact record_valid x (hinv.small hx)

/-- With fewer than `2^31 - 1` counter updates for each meme, in whatever order
the statements of the requests come: ids are distinct, the rows are valid, no
meme is found corrupted, and nothing throws but the decoding of a request. -/
theorem store_invariant {like : Str → Str → Bool} {engine : Db → Call → Reply → Db → Prop} (hd : Documented like engine)
    {p : Pool Db Call Reply StdException Response Input} (h : Reachable (memeSystem engine anyOrder) (memeDb []) p)
    (hviews : FewViews p.world) :
    (∃ ms, p.world.store = memeDb ms ∧ (ms.map Record.id).Nodup ∧ ∀ m ∈ ms, m.Valid) ∧
    ∀ t ∈ p.threads, t.prog ≠ .ret corrupted ∧ ∀ e, t.prog = .throw e → e = decodeFailure := by
  obtain ⟨-, hthreads⟩ := reachable_inv hd atMost (reachable_few h hviews)
  refine ⟨reachable_valid hd h hviews, fun t ht => ⟨fun he => ?_, fun e he => ?_⟩⟩
  · exact ((hthreads t ht).1 _ he).intact rfl
  · exact ((hthreads t ht).2 _ he).thrown e rfl

theorem fewViews_of_length {w : MemeWorld} (h : w.log.length < 2 ^ 31 - 1) : FewViews w :=
  fun _ => List.countP_le_length.trans_lt h

/-! ## Replays -/

/-- The requests on an engine that computes its replies. -/
def memeReplay (considered : Trace → Call → MemeWorld → MemeWorld → Bool) :
    Replay Db Call Reply StdException Response Input where
  start i := serve i.2.text i.1
  step := textEngine fun _ _ => true
  fresh i is := is.all fun j => i.2 ≠ j.2
  considered := considered

theorem memeReplay_fits {considered : Trace → Call → MemeWorld → MemeWorld → Bool}
    {allowed : Trace → Call → MemeWorld → MemeWorld → Prop}
    (h : ∀ tr op w w', considered tr op w w' = true → allowed tr op w w') :
    (memeReplay considered).Fits (memeSystem (computes fun _ _ => true) allowed) where
  start := rfl
  step _ _ := rfl
  fresh i is hf := by
    refine ⟨trivial, fun j hj => ?_⟩
    show i.2 ≠ j.2
    simpa using List.all_eq_true.1 hf j hj
  considered := h

/-- Two views of one meme, each of which reads the counter before the other writes it. -/
def race : List (Event Input) :=
  [.arrive creation, .call 0, .call 0, .call 0, .call 0, .arrive (viewing firstId), .arrive (viewing secondId),
   .call 1, .call 1, .call 1, .call 2, .call 2, .call 2, .call 1, .call 1, .call 1, .call 2, .call 2, .call 2]

theorem race_runs : ∃ p, (memeReplay fun _ _ _ _ => true).run (memeDb []) race = some p ∧
    Reachable (memeSystem (computes fun _ _ => true) anyOrder) (memeDb []) p ∧ FewViews p.world := by
  have h : ((memeReplay fun _ _ _ _ => true).run (memeDb []) race).any (fun p => p.world.log.length = 16) = true := by
    decide +kernel
  obtain ⟨p, hp, hlog⟩ := (Option.any_eq_true _ _).1 h
  refine ⟨p, hp, (memeReplay_fits fun _ _ _ _ _ => trivial).reachable hp, fewViews_of_length ?_⟩
  rw [of_decide_eq_true hlog]
  decide

theorem store_invariant_race : ∃ p, (memeReplay fun _ _ _ _ => true).run (memeDb []) race = some p ∧
    (∃ ms, p.world.store = memeDb ms ∧ (ms.map Record.id).Nodup ∧ ∀ m ∈ ms, m.Valid) ∧
    ∀ t ∈ p.threads, t.prog ≠ .ret corrupted ∧ ∀ e, t.prog = .throw e → e = decodeFailure := by
  obtain ⟨p, hp, hreach, hviews⟩ := race_runs
  exact ⟨p, hp, store_invariant (documented_computes _) hreach hviews⟩

end GittyUp.Meme
